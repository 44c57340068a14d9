import VectorDebugger.Machine.Ay

/-!
# Envelopes

The shape register of `AY` selects a ramp of sixteen levels and what follows it. The source counts
the ramp up to sixteen, and notices the end at the next step. The documented envelope is a function
of the shape and of the number of steps.
-/

namespace VectorDebugger

/-- The four bits of an envelope shape. -/
structure EnvelopeShape where
  /-- `CONT`. -/
  cont : Bool
  /-- `ATT`. -/
  att : Bool
  /-- `ALT`. -/
  alt : Bool
  /-- `HOLD`. -/
  hold : Bool

namespace EnvelopeShape

/-- The shape in the low bits of a value. -/
def ofValue (val : Nat) : EnvelopeShape :=
  ⟨val.testBit 3, val.testBit 2, val.testBit 1, val.testBit 0⟩

/-- A ramp of sixteen levels. -/
def ramp (attack : Bool) (position : Nat) : Nat := if attack then position else 15 - position

/-- The level of the generator after so many steps. -/
def level (shape : EnvelopeShape) (steps : Nat) : Nat :=
  if steps < 16 then ramp shape.att steps
  else if !shape.cont then 0
  else if shape.hold then if shape.att != shape.alt then 15 else 0
  else ramp (shape.att != (shape.alt && steps / 16 % 2 == 1)) (steps % 16)

end EnvelopeShape

namespace Ay

/-- The envelope counter and the bits of its shape. -/
structure Envelopes (ay : Ay) (count : Nat) (attack alternate hold : Bool) : Prop where
  count : ay.envx = count
  attack : ay.ay13.testBit 2 = attack
  alternate : ay.ay13.testBit 1 = alternate
  hold : ay.ay13.testBit 0 = hold

variable {ay : Ay} {count : Nat} {attack alternate hold : Bool}

theorem and_ne_zero (n i : Nat) : n &&& 2 ^ i ≠ 0 ↔ n.testBit i = true := by
  rw [Nat.and_two_pow]
  cases n.testBit i
  · simp
  · simp

/-- The ramp goes on. -/
theorem estep_ramp (at_ : ay.Envelopes count attack alternate hold) (short : count < 16) :
    ay.estep.1 = EnvelopeShape.ramp attack count ∧
      ay.estep.2.Envelopes (count + 1) attack alternate hold := by
  have low : ay.envx >>> 4 = 0 := by
    rw [at_.count, Nat.shiftRight_eq_div_pow]
    omega
  have bit := and_ne_zero ay.ay13 2
  rw [at_.attack] at bit
  unfold estep
  rw [if_neg (fun both => both.1 low), if_neg (fun wraps => wraps low)]
  refine ⟨?_, ⟨?_, at_.attack, at_.alternate, at_.hold⟩⟩
  · show (if ay.ay13 &&& 2 ^ 2 ≠ 0 then ay.envx else 15 - ay.envx) = if attack then _ else _
    rw [at_.count]
    exact if_congr bit rfl rfl
  · exact congrArg (· + 1) at_.count

/-- The envelope that holds stays where it is. -/
theorem estep_hold (at_ : ay.Envelopes 16 attack alternate true) :
    ay.estep.1 = (if attack != alternate then 15 else 0) ∧ ay.estep.2 = ay := by
  have high : ay.envx >>> 4 ≠ 0 := by
    rw [at_.count]
    decide
  have holds : ay.ay13 &&& 2 ^ 0 ≠ 0 := (and_ne_zero _ _).mpr at_.hold
  unfold estep
  rw [if_pos ⟨high, holds⟩]
  refine ⟨?_, rfl⟩
  have bits : ((ay.ay13 >>> 1) ^^^ ay.ay13).testBit 1 = (attack != alternate) := by
    rw [Nat.testBit_xor, Nat.testBit_shiftRight, at_.alternate, at_.attack]
  show 15 * (((ay.ay13 >>> 1) ^^^ ay.ay13) &&& 2 ^ 1) / 2 = _
  rw [Nat.and_two_pow, bits]
  cases attack != alternate
  · rfl
  · rfl

/-- At the end of a ramp that repeats the alternate bit turns the attack bit over. -/
theorem testBit_turn (n i : Nat) :
    (n ^^^ ((n <<< 1) &&& 2 ^ 2)).testBit i = (n.testBit i != (decide (i = 2) && n.testBit 1)) := by
  rw [Nat.testBit_xor, Nat.testBit_and, Nat.testBit_shiftLeft, Nat.testBit_two_pow]
  by_cases two : i = 2
  · subst two
    simp
  · have other : (2 = i) = False := eq_false (fun eq => two eq.symm)
    simp [two, other]

/-- The envelope that repeats starts its next ramp. -/
theorem estep_repeat (at_ : ay.Envelopes 16 attack alternate false) :
    ay.estep.1 = EnvelopeShape.ramp (attack != alternate) 0 ∧
      ay.estep.2.Envelopes 1 (attack != alternate) alternate false := by
  have high : ay.envx >>> 4 ≠ 0 := by
    rw [at_.count]
    decide
  have goes_on : ¬ ay.ay13 &&& 2 ^ 0 ≠ 0 := by
    rw [and_ne_zero, at_.hold]
    decide
  -- The wrapped state is at the start of a ramp.
  have start : ({ ay with
      envx := 0, ay13 := ay.ay13 ^^^ ((ay.ay13 <<< 1) &&& 2 ^ 2) } : Ay).Envelopes 0
        (attack != alternate) alternate false := by
    refine ⟨rfl, ?_, ?_, ?_⟩
    · exact (testBit_turn _ 2).trans (by rw [at_.attack, at_.alternate]; rfl)
    · exact (testBit_turn _ 1).trans (by rw [at_.alternate]; cases alternate <;> rfl)
    · exact (testBit_turn _ 0).trans (by rw [at_.hold]; rfl)
  have stepped := estep_ramp start (by decide)
  have same : ay.estep = ({ ay with
      envx := 0, ay13 := ay.ay13 ^^^ ((ay.ay13 <<< 1) &&& 2 ^ 2) } : Ay).estep := by
    unfold estep
    have low : 0 >>> 4 = 0 := by decide
    rw [if_neg (fun both => goes_on both.2), if_pos high, if_neg (fun both => both.1 low),
      if_neg (fun wraps => wraps low)]
    rfl
  rw [same]
  exact stepped

/-- Each step of an envelope that holds counts once more, up to sixteen. -/
theorem iterate_hold (start : ay.Envelopes 0 attack alternate true) (steps : Nat) :
    ((fun ay => ay.estep.2)^[steps] ay).Envelopes (min steps 16) attack alternate true := by
  induction steps with
  | zero => exact start
  | succ steps ih =>
    rw [Function.iterate_succ_apply']
    by_cases short : steps < 16
    · rw [Nat.min_eq_left (by omega)] at ih
      rw [Nat.min_eq_left (by omega)]
      exact (estep_ramp ih short).2
    · rw [Nat.min_eq_right (by omega)] at ih
      rw [Nat.min_eq_right (by omega), (estep_hold ih).2]
      exact ih

/-- Each step of an envelope that repeats counts round its ramp, and each further ramp turns the
attack over when the shape alternates. -/
theorem iterate_repeat (start : ay.Envelopes 0 attack alternate false) (steps : Nat) :
    ((fun ay => ay.estep.2)^[steps + 1] ay).Envelopes (steps % 16 + 1)
      (attack != (alternate && steps / 16 % 2 == 1)) alternate false := by
  induction steps with
  | zero =>
    have first := (estep_ramp start (by decide)).2
    have same : (attack != (alternate && 0 / 16 % 2 == 1)) = attack := by
      cases attack <;> cases alternate <;> rfl
    rw [same]
    exact first
  | succ steps ih =>
    rw [Function.iterate_succ_apply']
    by_cases short : steps % 16 + 1 < 16
    · have next := (estep_ramp ih short).2
      have position : (steps + 1) % 16 + 1 = steps % 16 + 1 + 1 := by omega
      have ramp : (steps + 1) / 16 = steps / 16 := by omega
      rw [position, ramp]
      exact next
    · have full : steps % 16 + 1 = 16 := by omega
      rw [full] at ih
      have next := (estep_repeat ih).2
      have position : (steps + 1) % 16 + 1 = 1 := by omega
      have turned : ((attack != (alternate && steps / 16 % 2 == 1)) != alternate) =
          (attack != (alternate && (steps + 1) / 16 % 2 == 1)) := by
        have ramp : (steps + 1) / 16 = steps / 16 + 1 := by omega
        rw [ramp]
        obtain even | odd : steps / 16 % 2 = 0 ∨ steps / 16 % 2 = 1 := by omega
        · have other : (steps / 16 + 1) % 2 = 1 := by omega
          rw [even, other]
          cases attack <;> cases alternate <;> rfl
        · have other : (steps / 16 + 1) % 2 = 0 := by omega
          rw [odd, other]
          cases attack <;> cases alternate <;> rfl
      rw [position, ← turned]
      exact next

/-- The levels of an envelope that holds. -/
theorem level_hold (start : ay.Envelopes 0 attack alternate true) (steps : Nat) :
    ((fun ay => ay.estep.2)^[steps] ay).estep.1 =
      if steps < 16 then EnvelopeShape.ramp attack steps
      else if attack != alternate then 15 else 0 := by
  have reached := iterate_hold start steps
  by_cases short : steps < 16
  · rw [Nat.min_eq_left (by omega)] at reached
    rw [if_pos short]
    exact (estep_ramp reached short).1
  · rw [Nat.min_eq_right (by omega)] at reached
    rw [if_neg short]
    exact (estep_hold reached).1

/-- The levels of an envelope that repeats. -/
theorem level_repeat (start : ay.Envelopes 0 attack alternate false) (steps : Nat) :
    ((fun ay => ay.estep.2)^[steps] ay).estep.1 =
      EnvelopeShape.ramp (attack != (alternate && steps / 16 % 2 == 1)) (steps % 16) := by
  cases steps with
  | zero =>
    have first := (estep_ramp start (by decide)).1
    have same : (attack != (alternate && 0 / 16 % 2 == 1)) = attack := by
      cases attack <;> cases alternate <;> rfl
    rw [same]
    exact first
  | succ steps =>
    have reached := iterate_repeat start steps
    have after := iterate_repeat start (steps + 1)
    by_cases short : steps % 16 + 1 < 16
    · have level := (estep_ramp reached short).1
      have position : (steps + 1) % 16 = steps % 16 + 1 := by omega
      have ramp : (steps + 1) / 16 = steps / 16 := by omega
      rw [level, position, ramp]
    · have full : steps % 16 + 1 = 16 := by omega
      rw [full] at reached
      have level := (estep_repeat reached).1
      have next := (estep_repeat reached).2
      have position : (steps + 1) % 16 = 0 := by omega
      rw [Function.iterate_succ_apply'] at after
      rw [level, position, next.attack.symm.trans after.attack]

/-- The lowest four bits of a shape decide the lowest four bits of its copy. -/
theorem envelopeShape_mod (val : Nat) : envelopeShape val % 16 = envelopeShape (val % 16) := by
  have low : val % 16 &&& 0xc = val &&& 0xc := by
    have mask : val % 16 = val &&& 15 := (Nat.and_two_pow_sub_one_eq_mod val 4).symm
    have bits : 15 &&& 0xc = 0xc := by decide
    rw [mask, Nat.and_assoc, bits]
  unfold envelopeShape
  rw [low]
  split
  · rfl
  · split
    · rfl
    · rfl

theorem testBit_mod_sixteen (n i : Nat) (low : i < 4) : (n % 16).testBit i = n.testBit i := by
  have cut := Nat.testBit_mod_two_pow n 4 i
  rw [decide_eq_true low] at cut
  exact cut

/-- A write to the shape register starts its ramp, with the shapes that do not continue as two of
those that hold. -/
theorem envelopes_write (ay : Ay) (val : Nat) :
    ((ay.write 1 13).write 0 val).Envelopes 0 (val.testBit 2)
      (if val.testBit 3 then val.testBit 1 else val.testBit 2)
      (if val.testBit 3 then val.testBit 0 else true) := by
  have bits : ∀ low < 16, (envelopeShape low).testBit 2 = low.testBit 2 ∧
      (envelopeShape low).testBit 1 = (if low.testBit 3 then low.testBit 1 else low.testBit 2) ∧
      (envelopeShape low).testBit 0 = (if low.testBit 3 then low.testBit 0 else true) := by
    decide
  have at_ := bits (val % 16) (Nat.mod_lt _ (by decide))
  rw [← envelopeShape_mod] at at_
  simp only [testBit_mod_sixteen _ 0 (by decide), testBit_mod_sixteen _ 1 (by decide),
    testBit_mod_sixteen _ 2 (by decide), testBit_mod_sixteen _ 3 (by decide)] at at_
  exact ⟨rfl, at_.1, at_.2.1, at_.2.2⟩

/-- The envelope after a write to the shape register is the one of that shape. -/
theorem level_write (ay : Ay) (val steps : Nat) :
    ((fun ay => ay.estep.2)^[steps] ((ay.write 1 13).write 0 val)).estep.1 =
      (EnvelopeShape.ofValue val).level steps := by
  have start := envelopes_write ay val
  unfold EnvelopeShape.level EnvelopeShape.ofValue
  cases cont : val.testBit 3 with
  | false =>
    rw [cont] at start
    rw [level_hold start steps]
    simp
  | true =>
    rw [cont] at start
    cases hold : val.testBit 0 with
    | true =>
      rw [hold] at start
      rw [level_hold start steps]
      simp
    | false =>
      rw [hold] at start
      rw [level_repeat start steps]
      by_cases short : steps < 16
      · have ramp : steps / 16 = 0 := by omega
        have position : steps % 16 = steps := by omega
        simp [short, ramp, position]
      · simp [short]

/-- The counter has not passed the end of its ramp, and the level is one of sixteen. -/
structure InRamp (ay : Ay) : Prop where
  envx : ay.envx ≤ 16
  envv : ay.envv ≤ 15

/-- A step of the envelope keeps the counter within its ramp, and its level is one of sixteen. -/
theorem InRamp.estep (bounds : ay.InRamp) : ay.estep.1 ≤ 15 ∧ ay.estep.2.InRamp := by
  unfold Ay.estep
  split
  · refine ⟨?_, bounds⟩
    have bit : ((ay.ay13 >>> 1) ^^^ ay.ay13) &&& 2 ≤ 2 := Nat.and_le_right
    change 15 * (((ay.ay13 >>> 1) ^^^ ay.ay13) &&& 2) / 2 ≤ 15
    omega
  · split
    · refine ⟨?_, ⟨Nat.le_of_ble_eq_true rfl, bounds.envv⟩⟩
      dsimp only
      split
      · exact Nat.zero_le _
      · exact le_refl _
    · rename_i low
      have short : ay.envx < 16 := by
        rw [not_not, Nat.shiftRight_eq_div_pow] at low
        omega
      refine ⟨?_, ⟨Nat.succ_le_of_lt short, bounds.envv⟩⟩
      change (if ay.ay13 &&& 4 ≠ 0 then ay.envx else 15 - ay.envx) ≤ 15
      split
      · omega
      · omega

theorem InRamp.envelopeStep (bounds : ay.InRamp) : ay.envelopeStep.InRamp := by
  unfold Ay.envelopeStep
  dsimp only
  split
  · have cleared : ({ ay with envc := 0 } : Ay).InRamp := ⟨bounds.envx, bounds.envv⟩
    exact ⟨cleared.estep.2.envx, cleared.estep.1⟩
  · exact ⟨bounds.envx, bounds.envv⟩

theorem InRamp.noiseStep (bounds : ay.InRamp) : ay.noiseStep.InRamp := by
  unfold Ay.noiseStep
  dsimp only
  split
  · exact ⟨bounds.envx, bounds.envv⟩
  · exact ⟨bounds.envx, bounds.envv⟩

theorem InRamp.cstep (bounds : ay.InRamp) (ch : Nat) : (ay.cstep ch).2.InRamp := by
  change (ay.toneStep ch).InRamp
  unfold Ay.toneStep
  dsimp only
  split
  · exact ⟨bounds.envx, bounds.envv⟩
  · exact ⟨bounds.envx, bounds.envv⟩

/-- The index of a channel is inside the table of amplitudes. -/
theorem InRamp.channelLevel (bounds : ay.InRamp) (ch : Nat) : (ay.channelLevel ch).2 < 16 := by
  unfold Ay.channelLevel
  have masked : ay.ayr (8 + ch) &&& 0x0f ≤ 0x0f := Nat.and_le_right
  have level := bounds.envv
  change (if ay.ayr (8 + ch) &&& 0x10 != 0 then ay.envv else ay.ayr (8 + ch) &&& 0x0f) < 16
  split
  · omega
  · omega

/-- What happens to the sound generator: it steps, or one of its two ports is written. -/
inductive Event
  /-- `AY::step`. -/
  | step
  /-- `AY::write`. -/
  | write (addr val : Nat)

/-- The generator after an event. -/
def perform (ay : Ay) : Event → Ay
  | .step => ay.step.2
  | .write addr val => ay.write addr val

/-- The indices of amplitudes that an event looks up. -/
def amplitudes (ay : Ay) : Event → List Nat
  | .step => ay.step.1.map Prod.snd
  | .write _ _ => []

theorem InRamp.step (bounds : ay.InRamp) :
    ay.step.2.InRamp ∧ ∀ index ∈ ay.step.1.map Prod.snd, index < 16 := by
  have moved := bounds.envelopeStep.noiseStep
  have a := moved.cstep 0
  have b := a.cstep 1
  have c := b.cstep 2
  refine ⟨c, ?_⟩
  intro index looked
  rcases List.mem_cons.mp looked with rfl | looked
  · exact a.channelLevel 0
  rcases List.mem_cons.mp looked with rfl | looked
  · exact b.channelLevel 1
  · rw [List.mem_singleton.mp looked]
    exact c.channelLevel 2

theorem InRamp.write (bounds : ay.InRamp) (addr val : Nat) : (ay.write addr val).InRamp := by
  unfold Ay.write
  split
  · exact ⟨bounds.envx, bounds.envv⟩
  · dsimp only
    split
    · exact ⟨Nat.zero_le _, bounds.envv⟩
    · exact ⟨bounds.envx, bounds.envv⟩

/-- An event keeps the counter within its ramp, and looks up amplitudes that are there. -/
theorem InRamp.perform (bounds : ay.InRamp) (event : Event) :
    (ay.perform event).InRamp ∧ ∀ index ∈ ay.amplitudes event, index < 16 := by
  cases event with
  | step => exact bounds.step
  | write addr val =>
    refine ⟨bounds.write addr val, ?_⟩
    intro index looked
    cases looked

/-- The counter stays within its ramp whatever happens. -/
theorem InRamp.foldl (bounds : ay.InRamp) (events : List Event) :
    (events.foldl Ay.perform ay).InRamp := by
  induction events generalizing ay with
  | nil => exact bounds
  | cons event events inductionHypothesis => exact inductionHypothesis (bounds.perform event).1

/-- After a write to the shape register the levels are for ever those of the documented envelope,
and whatever happens to a generator from its construction on, the levels it mixes are inside the
table of amplitudes. -/
theorem envelopes_documented :
    (∀ (ay : Ay) (val steps : Nat),
      ((fun ay => ay.estep.2)^[steps] ((ay.write 1 13).write 0 val)).estep.1 =
          (EnvelopeShape.ofValue val).level steps ∧
        (EnvelopeShape.ofValue val).level steps ≤ 15) ∧
      ∀ (events : List Event) (event : Event),
        ∀ index ∈ (events.foldl perform init).amplitudes event, index < 16 := by
  constructor
  · intro ay val steps
    refine ⟨level_write ay val steps, ?_⟩
    have bounds : ∀ steps : Nat,
        ((fun ay => ay.estep.2)^[steps] ((init.write 1 13).write 0 val)).InRamp := by
      intro steps
      induction steps with
      | zero => exact ⟨Nat.zero_le _, Nat.zero_le _⟩
      | succ steps inductionHypothesis =>
        rw [Function.iterate_succ_apply']
        exact inductionHypothesis.estep.2
    have level := (bounds steps).estep.1
    rw [level_write] at level
    exact level
  · intro events event
    have start : init.InRamp := ⟨Nat.zero_le _, Nat.zero_le _⟩
    exact ((start.foldl events).perform event).2

end Ay

end VectorDebugger

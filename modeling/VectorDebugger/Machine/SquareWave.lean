import Mathlib.Logic.Function.Iterate
import VectorDebugger.Machine.Timer

/-!
# The square wave

A counter in mode 3 counts by two, and by one or three where an odd value was just loaded. Its
output turns over when the value runs out. The phase of a period determines the value and the
output, and every tick moves the phase on by one.
-/

namespace VectorDebugger.CounterUnit

/-- The counter after one cycle. -/
def tick (ctr : CounterUnit) : CounterUnit := ctr.count.1

/-- The word that a load leaves, in the access mode and the digits of the counter. -/
def loadWord (latchMode : Nat) (lsb msb : Byte) : Word :=
  if latchMode = 3 then wordOf lsb msb
  else if latchMode = 1 then lsb.setWidth 16
  else wordOf 0 lsb

/-- The counter after it is set to mode 3 and loaded, with cycles in between. A load of one byte
takes the first one. -/
def programmed (ctr : CounterUnit) (latchMode : Nat) (bcd : Bool) (wait : Nat) (first : Byte)
    (gap : Nat) (second : Byte) : CounterUnit :=
  let set := tick^[wait] (ctr.setMode 3 latchMode bcd)
  if latchMode = 3 then (tick^[gap] (set.writeValue first)).writeValue second
  else set.writeValue first

/-- The number of ticks that a load stands for. -/
def period (bcd : Bool) (word : Word) : Nat :=
  let load := if bcd then frombcd word else word
  if load = 0 then if bcd then 10000 else 0x10000 else load.toNat

/-- The output is high for the first half of every period, the longer one, and once the counter
counts its value is between zero and the period. -/
structure SquareWave (ctr : CounterUnit) (period : Nat) : Prop where
  out : ∀ t, (tick^[t] ctr).out = if t % period < (period + 1) / 2 then 1 else 0
  value : ∀ t, 0 < t → 0 ≤ (tick^[t] ctr).value ∧ (tick^[t] ctr).value ≤ period

/-- The output in a phase. -/
def phaseOut (period phase : Nat) : Int := if phase < (period + 1) / 2 then 1 else 0

/-- The value in a phase. -/
def phaseValue (period phase : Nat) : Int :=
  if phase = 0 then period
  else if phase < (period + 1) / 2 then period + period % 2 - 2 * phase
  else if phase = (period + 1) / 2 then period
  else period - period % 2 - 2 * (phase - (period + 1) / 2 : Nat)

/-- A counter in mode 3 that counts, in a phase of its period. -/
structure InPhase (ctr : CounterUnit) (period phase : Nat) : Prop where
  mode : ctr.modeInt = 3
  now : ctr.delay = 0
  enabled : ctr.enabled = true
  reload : ctr.reload = period
  odd : period % 2 = 1 → (ctr.loadvalue.toNat : Int) = period
  out : ctr.out = phaseOut period phase
  value : ctr.value = phaseValue period phase

/-- What a counter in mode 3 counts by. -/
def stride (ctr : CounterUnit) : Int :=
  if ctr.value = ctr.loadvalue.toNat ∧ ctr.value % 2 = 1 then if ctr.out = 0 then 3 else 1 else 2

theorem phaseValue_pos {period phase : Nat} (inside : phase < period) :
    0 < phaseValue period phase ∧ phaseValue period phase ≤ period := by
  unfold phaseValue
  split
  · omega
  · split
    · omega
    · split
      · omega
      · omega

/-- The value runs out at the end of each half, and nowhere else. -/
theorem phaseValue_succ {period phase load : Nat} (two : 2 ≤ period) (inside : phase < period)
    (odd : period % 2 = 1 → load = period) :
    phaseValue period phase -
        (if phaseValue period phase = load ∧ phaseValue period phase % 2 = 1 then
          if phaseOut period phase = 0 then 3 else 1 else 2) =
      if phase + 1 = (period + 1) / 2 ∨ phase + 1 = period then 0
      else phaseValue period (phase + 1) := by
  have low : phaseOut period phase = 0 ↔ (period + 1) / 2 ≤ phase := by
    unfold phaseOut
    split <;> omega
  by_cases even : period % 2 = 0
  · -- Every value of an even period is even.
    have counted : ¬ (phaseValue period phase = load ∧ phaseValue period phase % 2 = 1) := by
      unfold phaseValue
      split_ifs <;> omega
    rw [if_neg counted]
    unfold phaseValue
    rw [if_neg (Nat.succ_ne_zero phase)]
    split_ifs <;> omega
  · have whole := odd (by omega)
    -- The value is the loaded one at the start of each half.
    have counted : (phaseValue period phase = load ∧ phaseValue period phase % 2 = 1) ↔
        phase = 0 ∨ phase = (period + 1) / 2 := by
      unfold phaseValue
      split_ifs <;> omega
    rw [if_congr counted (if_congr low rfl rfl) rfl]
    unfold phaseValue
    rw [if_neg (Nat.succ_ne_zero phase)]
    split_ifs <;> omega

theorem phaseValue_half {period : Nat} (two : 2 ≤ period) :
    phaseValue period ((period + 1) / 2) = period := by
  unfold phaseValue
  split_ifs <;> omega

/-- A tick in mode 3 that counts. -/
theorem tick_square {ctr : CounterUnit} (mode : ctr.modeInt = 3) (now : ctr.delay = 0)
    (counts : ctr.enabled = true ∨ ctr.load = true) :
    ctr.tick = { ctr.countSquare with load := false } := by
  unfold tick count
  have goes_on : ¬ (!ctr.enabled && !ctr.load) = true := by
    cases counts with
    | inl enabled =>
      rw [enabled, Bool.not_true, Bool.false_and]
      decide
    | inr load =>
      rw [load, Bool.not_true, Bool.and_false]
      decide
  rw [if_neg (not_not.mpr now), if_neg goes_on, mode]
  rfl

/-- A count in mode 3 takes the stride off the value, and turns the output over when nothing is
left. -/
theorem countSquare_enabled {ctr : CounterUnit} (enabled : ctr.enabled = true) :
    ctr.countSquare =
      if ctr.value - ctr.stride ≤ 0 then
        { ctr with out := Int.xor ctr.out 1, value := ctr.value - ctr.stride + ctr.reload }
      else { ctr with value := ctr.value - ctr.stride } := by
  have begun : ctr.begin = ctr := by
    unfold begin
    rw [enabled]
    rfl
  unfold countSquare
  rw [begun]
  exact if_pos enabled

theorem tick_enabled {ctr : CounterUnit} (mode : ctr.modeInt = 3) (now : ctr.delay = 0)
    (enabled : ctr.enabled = true) :
    ctr.tick =
      if ctr.value - ctr.stride ≤ 0 then
        { ctr with
          load := false
          out := Int.xor ctr.out 1
          value := ctr.value - ctr.stride + ctr.reload }
      else { ctr with load := false, value := ctr.value - ctr.stride } := by
  rw [tick_square mode now (.inl enabled), countSquare_enabled enabled]
  split
  · rfl
  · rfl

/-- A counter that begins ticks as one that counts from the loaded value. -/
theorem tick_begin {ctr : CounterUnit} (mode : ctr.modeInt = 3) (now : ctr.delay = 0)
    (off : ctr.enabled = false) (load : ctr.load = true) :
    ctr.tick =
      ({ ctr with value := ctr.loadvalue.toNat, enabled := true } : CounterUnit).tick := by
  have begins : ctr.begin = { ctr with value := ctr.loadvalue.toNat, enabled := true } := by
    unfold begin
    rw [off, load]
    rfl
  have counted : ctr.countSquare =
      ({ ctr with value := ctr.loadvalue.toNat, enabled := true } : CounterUnit).countSquare := by
    unfold countSquare
    rw [begins]
    rfl
  have loaded : ({ ctr with value := ctr.loadvalue.toNat, enabled := true } : CounterUnit).tick =
      { ({ ctr with value := ctr.loadvalue.toNat, enabled := true } : CounterUnit).countSquare with
        load := false } := tick_square mode now (.inl rfl)
  rw [tick_square mode now (.inr load), loaded, counted]

/-- Each tick moves the phase on. -/
theorem InPhase.tick {ctr : CounterUnit} {period phase : Nat} (two : 2 ≤ period)
    (inside : phase < period) (at_ : ctr.InPhase period phase) :
    ctr.tick.InPhase period ((phase + 1) % period) := by
  have run := phaseValue_succ two inside (fun odd => Int.ofNat_inj.mp (at_.odd odd))
  have left : ctr.value - ctr.stride =
      if phase + 1 = (period + 1) / 2 ∨ phase + 1 = period then 0
      else phaseValue period (phase + 1) := by
    unfold stride
    rw [at_.value, at_.out]
    exact run
  have ticked := tick_enabled at_.mode at_.now at_.enabled
  by_cases half : phase + 1 = (period + 1) / 2
  · -- The first half is over.
    rw [if_pos (.inl half)] at left
    rw [left, if_pos (le_refl 0)] at ticked
    have next : (phase + 1) % period = (period + 1) / 2 := by
      rw [half]
      exact Nat.mod_eq_of_lt (by omega)
    have high : ctr.out = 1 := at_.out.trans (if_pos (by omega))
    rw [ticked, next]
    refine ⟨at_.mode, at_.now, at_.enabled, at_.reload, at_.odd, ?_, ?_⟩
    · show Int.xor ctr.out 1 = _
      rw [high]
      exact (if_neg (by omega)).symm
    · show 0 + ctr.reload = _
      rw [at_.reload, Int.zero_add, phaseValue_half two]
  · by_cases last : phase + 1 = period
    · rw [if_pos (.inr last)] at left
      rw [left, if_pos (le_refl 0)] at ticked
      have next : (phase + 1) % period = 0 := by rw [last, Nat.mod_self]
      have low : ctr.out = 0 := at_.out.trans (if_neg (by omega))
      rw [ticked, next]
      refine ⟨at_.mode, at_.now, at_.enabled, at_.reload, at_.odd, ?_, ?_⟩
      · show Int.xor ctr.out 1 = _
        rw [low]
        exact (if_pos (by omega)).symm
      · show 0 + ctr.reload = _
        rw [at_.reload, Int.zero_add]
        rfl
    · have next : (phase + 1) % period = phase + 1 := Nat.mod_eq_of_lt (by omega)
      have more := (phaseValue_pos (show phase + 1 < period by omega)).1
      rw [if_neg (by omega)] at left
      rw [left, if_neg (by omega)] at ticked
      rw [ticked, next]
      refine ⟨at_.mode, at_.now, at_.enabled, at_.reload, at_.odd, ?_, rfl⟩
      show ctr.out = _
      rw [at_.out]
      unfold phaseOut
      exact if_congr (by omega) rfl rfl

/-- Where a counter is after any number of ticks from the start of a period. -/
theorem InPhase.iterate {ctr : CounterUnit} {period : Nat} (two : 2 ≤ period)
    (at_ : ctr.InPhase period 0) (t : Nat) :
    (CounterUnit.tick^[t] ctr).InPhase period (t % period) := by
  induction t with
  | zero =>
    rw [Nat.zero_mod]
    exact at_
  | succ t inductionHypothesis =>
    rw [Function.iterate_succ_apply']
    have next := inductionHypothesis.tick two (Nat.mod_lt _ (by omega))
    rw [Nat.mod_add_mod] at next
    exact next

/-- A counter in mode 3 that waits for its load. -/
structure Waiting (ctr : CounterUnit) (latchMode : Nat) (bcd : Bool) : Prop where
  mode : ctr.modeInt = 3
  out : ctr.out = 1
  off : ctr.enabled = false
  unloaded : ctr.load = false
  access : ctr.latchMode = latchMode
  digits : ctr.bcd = bcd

/-- A counter in mode 3 whose count begins after a delay. -/
structure Loaded (ctr : CounterUnit) (bcd : Bool) (word : Word) (wait : Nat) : Prop where
  mode : ctr.modeInt = 3
  out : ctr.out = 1
  off : ctr.enabled = false
  loaded : ctr.load = true
  digits : ctr.bcd = bcd
  value : ctr.loadvalue = if bcd then frombcd word else word
  waits : ctr.delay = wait

variable {ctr : CounterUnit} {latchMode wait : Nat} {bcd : Bool} {word : Word}

/-- A tick of a counter that does not count moves at most its delay. -/
theorem tick_idle (idle : ctr.delay ≠ 0 ∨ ctr.enabled = false ∧ ctr.load = false) :
    ctr.tick = { ctr with delay := ctr.delay - 1 } := by
  unfold tick count
  by_cases waits : ctr.delay ≠ 0
  · rw [if_pos waits]
  · have off := idle.resolve_left waits
    have stays : (!ctr.enabled && !ctr.load) = true := by
      rw [off.1, off.2]
      rfl
    have now : ctr.delay - 1 = ctr.delay := by omega
    rw [if_neg waits, if_pos stays, now]

theorem Waiting.tick (waits : ctr.Waiting latchMode bcd) : ctr.tick.Waiting latchMode bcd := by
  rw [tick_idle (.inr ⟨waits.off, waits.unloaded⟩)]
  exact ⟨waits.mode, waits.out, waits.off, waits.unloaded, waits.access, waits.digits⟩

/-- The bytes of a load and the order they come in stay as they are while the counter waits. -/
theorem Waiting.iterate (waits : ctr.Waiting latchMode bcd) (t : Nat) :
    (CounterUnit.tick^[t] ctr).Waiting latchMode bcd ∧
      (CounterUnit.tick^[t] ctr).writeState = ctr.writeState ∧
      (CounterUnit.tick^[t] ctr).writeLsb = ctr.writeLsb := by
  induction t with
  | zero => exact ⟨waits, rfl, rfl⟩
  | succ t inductionHypothesis =>
    have before := inductionHypothesis.1
    rw [Function.iterate_succ_apply', tick_idle (.inr ⟨before.off, before.unloaded⟩)]
    exact ⟨⟨before.mode, before.out, before.off, before.unloaded, before.access, before.digits⟩,
      inductionHypothesis.2⟩

theorem Loaded.tick (begins : ctr.Loaded bcd word (wait + 1)) : ctr.tick.Loaded bcd word wait := by
  have waits : ctr.delay ≠ 0 := by
    rw [begins.waits]
    exact Nat.succ_ne_zero wait
  rw [tick_idle (.inl waits)]
  refine ⟨begins.mode, begins.out, begins.off, begins.loaded, begins.digits, begins.value, ?_⟩
  show ctr.delay - 1 = wait
  rw [begins.waits, Nat.add_sub_cancel]

theorem waiting_setMode (ctr : CounterUnit) (latchMode : Nat) (bcd : Bool) :
    (ctr.setMode 3 latchMode bcd).Waiting latchMode bcd :=
  ⟨rfl, rfl, rfl, rfl, rfl, rfl⟩

/-- The first byte of two. -/
theorem Waiting.writeValue_first (waits : ctr.Waiting 3 bcd) (first : ctr.writeState = 0)
    (w8 : Byte) :
    ctr.writeValue w8 = { ctr with writeLsb := w8, writeState := 1 } := by
  simp [writeValue, waits.access, first, waits.unloaded]

/-- The byte that completes a load. -/
theorem Waiting.writeValue_last (waits : ctr.Waiting latchMode bcd) (first w8 : Byte)
    (complete : latchMode = 1 ∧ first = w8 ∨ latchMode = 2 ∧ first = w8 ∨
      latchMode = 3 ∧ ctr.writeState = 1 ∧ ctr.writeLsb = first) :
    (ctr.writeValue w8).Loaded bcd (loadWord latchMode first w8) 3 := by
  obtain ⟨rfl, rfl⟩ | ⟨rfl, rfl⟩ | ⟨rfl, second, lsb⟩ := complete
  · constructor <;>
      simp [writeValue, loadWord, loadDelay, waits.access, waits.mode, waits.out, waits.off,
        waits.digits]
  · constructor <;>
      simp [writeValue, loadWord, loadDelay, waits.access, waits.mode, waits.out, waits.off,
        waits.digits]
  · constructor <;>
      simp [writeValue, loadWord, loadDelay, waits.access, waits.mode, waits.out, waits.off,
        waits.digits, second, lsb]

/-- Setting the mode and loading a counter leaves it about to count. -/
theorem loaded_programmed (ctr : CounterUnit) (access : 1 ≤ latchMode ∧ latchMode ≤ 3)
    (bcd : Bool) (wait : Nat) (first : Byte) (gap : Nat) (second : Byte) :
    (tick^[3] (ctr.programmed latchMode bcd wait first gap second)).Loaded bcd
      (loadWord latchMode first second) 0 := by
  have set := (waiting_setMode ctr latchMode bcd).iterate wait
  have begins : (ctr.programmed latchMode bcd wait first gap second).Loaded bcd
      (loadWord latchMode first second) 3 := by
    unfold programmed
    by_cases two : latchMode = 3
    · subst two
      dsimp only
      rw [if_pos rfl]
      have half := set.1.writeValue_first set.2.1 first
      have between := (show ((tick^[wait] (ctr.setMode 3 3 bcd)).writeValue first).Waiting 3 bcd by
        rw [half]
        exact ⟨set.1.mode, set.1.out, set.1.off, set.1.unloaded, set.1.access,
          set.1.digits⟩).iterate gap
      refine between.1.writeValue_last first second (.inr (.inr ⟨rfl, ?_, ?_⟩))
      · rw [between.2.1, half]
      · rw [between.2.2, half]
    · dsimp only
      rw [if_neg two]
      have same : loadWord latchMode first second = loadWord latchMode first first := by
        unfold loadWord
        rw [if_neg two, if_neg two]
      rw [same]
      obtain one | high : latchMode = 1 ∨ latchMode = 2 := by omega
      · exact set.1.writeValue_last first first (.inl ⟨one, rfl⟩)
      · exact set.1.writeValue_last first first (.inr (.inl ⟨high, rfl⟩))
  exact begins.tick.tick.tick

/-- A digit is zero only for a zero group of bits. -/
theorem digit_toNat (x : Word) (shift : Nat) :
    (if (x >>> shift) &&& 0xf > 9 then 9 else (x >>> shift) &&& 0xf).toNat =
      min (x.toNat / 2 ^ shift % 16) 9 := by
  have bits : ((x >>> shift) &&& 0xf).toNat = x.toNat / 2 ^ shift % 16 := by
    have mask : (15 : Nat) = 2 ^ 4 - 1 := rfl
    rw [BitVec.toNat_and, BitVec.toNat_ushiftRight, Nat.shiftRight_eq_div_pow]
    show x.toNat / 2 ^ shift &&& 15 = _
    rw [mask, Nat.and_two_pow_sub_one_eq_mod]
  have large : (x >>> shift) &&& 0xf > 9 ↔ 9 < x.toNat / 2 ^ shift % 16 := by
    rw [gt_iff_lt, BitVec.lt_def, bits]
    rfl
  split
  · rename_i above
    have nine := large.mp above
    rw [Nat.min_eq_right (by omega)]
    rfl
  · rename_i below
    have digit := (not_congr large).mp below
    rw [bits, Nat.min_eq_left (by omega)]

/-- A number of four digits is zero only for four zeros. -/
theorem digits_zero {a b c d : Nat} (ha : a ≤ 9) (hb : b ≤ 9) (hc : c ≤ 9) (hd : d ≤ 9)
    (zero : (((a % 65536 * 10 % 65536 + b) % 65536 * 10 % 65536 + c) % 65536 * 10 % 65536 + d) %
      65536 = 0) : a = 0 ∧ b = 0 ∧ c = 0 ∧ d = 0 := by
  have first : a % 65536 * 10 % 65536 = a * 10 := by omega
  have second : (a * 10 + b) % 65536 * 10 % 65536 = (a * 10 + b) * 10 := by omega
  have third : ((a * 10 + b) * 10 + c) % 65536 * 10 % 65536 = ((a * 10 + b) * 10 + c) * 10 := by
    omega
  rw [first, second, third, Nat.mod_eq_of_lt (by omega)] at zero
  omega

/-- Only the word zero has no digit but zeros. -/
theorem frombcd_eq_zero {x : Word} (zero : frombcd x = 0) : x = 0 := by
  have number := congrArg BitVec.toNat zero
  unfold frombcd at number
  simp only [List.foldl_cons, List.foldl_nil, BitVec.toNat_add, BitVec.toNat_mul,
    digit_toNat] at number
  have small := x.isLt
  have zeros := digits_zero (Nat.min_le_right (x.toNat / 2 ^ 12 % 16) 9)
    (Nat.min_le_right (x.toNat / 2 ^ 8 % 16) 9) (Nat.min_le_right (x.toNat / 2 ^ 4 % 16) 9)
    (Nat.min_le_right (x.toNat / 2 ^ 0 % 16) 9) (by simpa using number)
  apply BitVec.eq_of_toNat_eq
  show x.toNat = 0
  omega

/-- What is reloaded is the period. -/
theorem Loaded.reload (begins : ctr.Loaded bcd word wait) : ctr.reload = period bcd word := by
  unfold CounterUnit.reload period span
  rw [begins.value, begins.digits]
  by_cases zero : (if bcd then frombcd word else word) = 0
  · rw [if_pos zero]
    dsimp only
    rw [if_pos zero]
    cases bcd
    · rfl
    · rfl
  · rw [if_neg zero]
    dsimp only
    rw [if_neg zero]

/-- A period that is not the loaded value is even. -/
theorem Loaded.period_even (begins : ctr.Loaded bcd word wait) (odd : period bcd word % 2 = 1) :
    (ctr.loadvalue.toNat : Int) = period bcd word := by
  have reloads := begins.reload
  unfold CounterUnit.reload span at reloads
  by_cases zero : ctr.loadvalue = 0
  · rw [if_pos zero] at reloads
    split at reloads
    · omega
    · omega
  · rw [if_neg zero] at reloads
    exact reloads

/-- The tick at which a counter begins is the first of its period, when the load is not zero. -/
theorem Loaded.inPhase (begins : ctr.Loaded bcd word 0) (two : 2 ≤ period bcd word)
    (ne : word ≠ 0) :
    ({ ctr with value := ctr.loadvalue.toNat, enabled := true } : CounterUnit).InPhase
      (period bcd word) 0 := by
  have load : ctr.loadvalue ≠ 0 := by
    rw [begins.value]
    cases bcd with
    | false => exact ne
    | true => exact fun zero => ne (frombcd_eq_zero zero)
  have reloads := begins.reload
  refine ⟨begins.mode, begins.waits, rfl, reloads, begins.period_even, ?_, ?_⟩
  · have high : 0 < (period bcd word + 1) / 2 := by omega
    exact begins.out.trans (if_pos high).symm
  · unfold CounterUnit.reload at reloads
    rw [if_neg load] at reloads
    exact reloads

/-- The wave that begins with a load that is not zero. -/
theorem Loaded.squareWave (begins : ctr.Loaded bcd word 0) (two : 2 ≤ period bcd word)
    (ne : word ≠ 0) : ctr.SquareWave (period bcd word) := by
  have start := begins.inPhase two ne
  have first := tick_begin begins.mode begins.waits begins.off begins.loaded
  have phases : ∀ t, (CounterUnit.tick^[t + 1] ctr).InPhase (period bcd word)
      ((t + 1) % period bcd word) := by
    intro t
    rw [Function.iterate_succ_apply, first, ← Function.iterate_succ_apply]
    exact start.iterate two (t + 1)
  constructor
  · intro t
    cases t with
    | zero =>
      rw [Nat.zero_mod]
      exact begins.out.trans (if_pos (by omega)).symm
    | succ t => exact (phases t).out
  · intro t later
    obtain ⟨t, rfl⟩ := Nat.exists_eq_succ_of_ne_zero (Nat.ne_of_gt later)
    have bounds := phaseValue_pos (Nat.mod_lt (t + 1) (show 0 < period bcd word by omega))
    rw [← (phases t).value] at bounds
    exact ⟨le_of_lt bounds.1, bounds.2⟩

/-- A counter that begins with a load of zero turns its output over at once. -/
theorem Loaded.tick_zero (begins : ctr.Loaded bcd 0 0) : ctr.tick.out = 0 := by
  have zero : ctr.loadvalue = 0 := by
    rw [begins.value]
    cases bcd
    · rfl
    · rfl
  have counts : ({ ctr with value := ctr.loadvalue.toNat, enabled := true } : CounterUnit).tick =
      _ := tick_enabled begins.mode begins.waits rfl
  rw [tick_begin begins.mode begins.waits begins.off begins.loaded, counts]
  unfold stride
  dsimp only
  rw [zero]
  show Int.xor ctr.out 1 = 0
  rw [begins.out]
  rfl

/-- The wave of a loaded counter is the square wave of its period exactly when the load is not
zero. -/
theorem squareWave_iff (ctr : CounterUnit) (access : 1 ≤ latchMode ∧ latchMode ≤ 3) (bcd : Bool)
    (wait : Nat) (first : Byte) (gap : Nat) (second : Byte)
    (two : 2 ≤ period bcd (loadWord latchMode first second)) :
    (tick^[3] (ctr.programmed latchMode bcd wait first gap second)).SquareWave
        (period bcd (loadWord latchMode first second)) ↔
      loadWord latchMode first second ≠ 0 := by
  have begins := loaded_programmed ctr access bcd wait first gap second
  constructor
  · intro wave zero
    rw [zero] at begins
    have early : 1 % period bcd (loadWord latchMode first second) <
        (period bcd (loadWord latchMode first second) + 1) / 2 := by
      rw [zero]
      cases bcd
      · decide
      · decide
    have high := wave.out 1
    rw [if_pos early] at high
    have low := begins.tick_zero
    exact absurd (high.symm.trans low) (by decide)
  · exact begins.squareWave two

/-- A load of three ticks. -/
theorem squareWave_iff_three :
    (tick^[3] (CounterUnit.init.programmed 1 false 0 3 0 0)).SquareWave (period false 3) :=
  (squareWave_iff .init (by decide) false 0 3 0 0 (by decide)).mpr (by decide)

/-- A load of zero stands for the longest period, and the first half of it is not there. -/
theorem zero_not_squareWave : ¬ ∀ (ctr : CounterUnit) (latchMode : Nat) (bcd : Bool)
    (wait : Nat) (first : Byte) (gap : Nat) (second : Byte), 1 ≤ latchMode ∧ latchMode ≤ 3 →
      2 ≤ period bcd (loadWord latchMode first second) →
        (tick^[3] (ctr.programmed latchMode bcd wait first gap second)).SquareWave
          (period bcd (loadWord latchMode first second)) := by
  intro waves
  have begins := loaded_programmed .init (show 1 ≤ 3 ∧ 3 ≤ 3 by decide) false 0 0 0 0
  have high := (waves .init 3 false 0 0 0 0 (by decide) (by decide)).out 1
  exact absurd (begins.tick_zero.symm.trans high) (by decide)

end VectorDebugger.CounterUnit

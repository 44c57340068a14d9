import Mathlib.Tactic.NormNum.Prime
import VectorDebugger.Library.FeedbackRegister
import VectorDebugger.Machine.Envelope

/-!
# Noise

The noise of `AY` is the lowest bit of a feedback register of seventeen bits. Only the noise counter
moves the register, whatever the guest writes. The period of the register is a prime, so a machine
never gets stuck in a shorter one: its noise repeats every 131071 moves and at no other distance.
-/

namespace VectorDebugger.Ay

variable (ay : Ay)

/-- How often an event moves the noise register. -/
def noiseMoves : Event → Nat
  | .step => if ay.noic + 1 ≥ ay.ayr 6 <<< 1 then 1 else 0
  | .write _ _ => 0

/-- How often events move the noise register. -/
def runNoiseMoves : Ay → List Event → Nat
  | _, [] => 0
  | ay, event :: events => ay.noiseMoves event + runNoiseMoves (ay.perform event) events

/-! ## Steps -/

theorem envelopeStep_noise : ay.envelopeStep.noic = ay.noic ∧ ay.envelopeStep.noir = ay.noir ∧
    ay.envelopeStep.ayr = ay.ayr := by
  unfold envelopeStep
  dsimp only
  split
  · unfold estep
    split
    · exact ⟨rfl, rfl, rfl⟩
    · dsimp only
      split
      · exact ⟨rfl, rfl, rfl⟩
      · exact ⟨rfl, rfl, rfl⟩
  · exact ⟨rfl, rfl, rfl⟩

theorem noiseStep_noise : ay.noiseStep.ayr = ay.ayr ∧
    ay.noiseStep.noir = (FeedbackRegister.step 0x24000)^[ay.noiseMoves .step] ay.noir := by
  unfold noiseStep noiseMoves
  dsimp only
  split
  · exact ⟨rfl, rfl⟩
  · exact ⟨rfl, rfl⟩

theorem cstep_noise (ch : Nat) :
    (ay.cstep ch).2.noir = ay.noir ∧ (ay.cstep ch).2.ayr 6 = ay.ayr 6 := by
  have elsewhere : 6 ≠ ch + 16 := by omega
  show (ay.toneStep ch).noir = ay.noir ∧ (ay.toneStep ch).ayr 6 = ay.ayr 6
  unfold toneStep
  dsimp only
  split
  · exact ⟨rfl, Function.update_of_ne elsewhere 0 ay.ayr⟩
  · exact ⟨rfl, Function.update_of_ne elsewhere (ay.ayr (ch + 16) + 1) ay.ayr⟩

/-- A step moves the register if the counter has come to its end, and keeps the period. -/
theorem step_noise : ay.step.2.ayr 6 = ay.ayr 6 ∧
    ay.step.2.noir = (FeedbackRegister.step 0x24000)^[ay.noiseMoves .step] ay.noir := by
  obtain ⟨counter, register, registers⟩ := ay.envelopeStep_noise
  obtain ⟨kept, moved⟩ := ay.envelopeStep.noiseStep_noise
  have a := ay.envelopeStep.noiseStep.cstep_noise 0
  have b := (ay.envelopeStep.noiseStep.cstep 0).2.cstep_noise 1
  have c := ((ay.envelopeStep.noiseStep.cstep 0).2.cstep 1).2.cstep_noise 2
  have moves : ay.envelopeStep.noiseMoves .step = ay.noiseMoves .step := by
    unfold noiseMoves
    rw [counter, registers]
  constructor
  · calc ay.step.2.ayr 6
        = ay.envelopeStep.noiseStep.ayr 6 := (c.2.trans b.2).trans a.2
      _ = ay.ayr 6 := by rw [kept, registers]
  · calc ay.step.2.noir
        = ay.envelopeStep.noiseStep.noir := (c.1.trans b.1).trans a.1
      _ = (FeedbackRegister.step 0x24000)^[ay.noiseMoves .step] ay.noir := by
        rw [moved, moves, register]

/-- A write leaves the register as it is. -/
theorem write_noise (addr val : Nat) : (ay.write addr val).noir = ay.noir := by
  unfold write
  split
  · rfl
  · dsimp only
    split
    · rfl
    · rfl

theorem perform_noise (event : Event) :
    (ay.perform event).noir =
      (FeedbackRegister.step 0x24000)^[ay.noiseMoves event] ay.noir := by
  cases event with
  | step => exact ay.step_noise.2
  | write addr val => exact ay.write_noise addr val

/-! ## Runs -/

/-- A run moves the register as often as its events do. -/
theorem foldl_noise (events : List Event) : ∀ ay : Ay,
    (events.foldl perform ay).noir =
      (FeedbackRegister.step 0x24000)^[runNoiseMoves ay events] ay.noir := by
  induction events with
  | nil => exact fun _ => rfl
  | cons event events inductionHypothesis =>
    intro ay
    rw [List.foldl_cons, inductionHypothesis, perform_noise, ← Function.iterate_add_apply,
      Nat.add_comm]
    rfl

/-- With the shortest period, every step moves the register. -/
theorem replicate_noise (steps : Nat) : ∀ ay : Ay, ay.ayr 6 = 0 →
    runNoiseMoves ay (List.replicate steps .step) = steps := by
  induction steps with
  | zero => exact fun _ _ => rfl
  | succ steps inductionHypothesis =>
    intro ay shortest
    have moves : ay.noiseMoves .step = 1 := by
      unfold noiseMoves
      rw [shortest]
      exact if_pos (Nat.zero_le _)
    have later := inductionHypothesis ay.step.2 (ay.step_noise.1.trans shortest)
    show ay.noiseMoves .step + runNoiseMoves ay.step.2 (List.replicate steps .step) = _
    rw [moves, later, Nat.add_comm]

/-- The register of the noise has the full period. -/
theorem noise_minimalPeriod : Function.minimalPeriod (FeedbackRegister.step 0x24000) 1 = 131071 :=
  FeedbackRegister.minimalPeriod_one (by decide : 0x24000 < 2 ^ (16 + 2)) (by decide +kernel)
    (by decide) (by show Nat.Prime 131071; norm_num)

/-- Whatever happens to a sound generator from its construction on, its noise register is never zero
and keeps to seventeen bits. Two runs leave the same register if and only if they moved it equally
often, up to a multiple of 131071, and some run leaves any value but zero. -/
theorem noise_fullPeriod :
    (∀ events : List Event, 0 < (events.foldl perform init).noir ∧
      (events.foldl perform init).noir < 2 ^ 17) ∧
    (∀ events others : List Event,
      (events.foldl perform init).noir = (others.foldl perform init).noir ↔
        runNoiseMoves init events % 131071 = runNoiseMoves init others % 131071) ∧
    ∀ value, 0 < value → value < 2 ^ 17 →
      ∃ steps < 131071, ((List.replicate steps Event.step).foldl perform init).noir = value := by
  have positive : 0 < Function.minimalPeriod (FeedbackRegister.step 0x24000) 1 := by
    rw [noise_minimalPeriod]
    decide
  refine ⟨fun events => ?_, fun events others => ?_, fun value some' small => ?_⟩
  · rw [foldl_noise]
    exact ⟨Nat.pos_of_ne_zero (FeedbackRegister.iterate_ne_zero positive _),
      FeedbackRegister.iterate_lt (by decide) (by decide) _⟩
  · rw [foldl_noise, foldl_noise]
    exact FeedbackRegister.iterate_eq_iff noise_minimalPeriod (by decide) _ _
  · obtain ⟨steps, short, reached⟩ := FeedbackRegister.exists_iterate
      (by decide : 0x24000 < 2 ^ (16 + 2))
      noise_minimalPeriod some' small
    refine ⟨steps, short, ?_⟩
    rw [foldl_noise, replicate_noise steps init rfl]
    exact reached

end VectorDebugger.Ay

import Mathlib.Data.Nat.Prime.Defs
import Mathlib.Dynamics.PeriodicPts.Defs
import Mathlib.Order.Interval.Finset.Nat

/-!
# Feedback shift registers

A register is a number. A step shifts it to the right, and if the lowest bit was set, it first flips
the tapped bits. A step is linear over exclusive or, and each power of two is the step of the next
one. So the states behind the highest bit say what every number of steps does, and the state
behind twice the steps is the product of a state with itself. That way the period of a register is
found by a few squares.
-/

namespace FeedbackRegister

/-- A step. -/
def step (taps s : Nat) : Nat := (s ^^^ ((s &&& 1) * taps)) >>> 1

variable {taps : Nat}

theorem step_zero : step taps 0 = 0 := by
  unfold step
  rw [Nat.zero_and, Nat.zero_mul]
  rfl

theorem step_xor (a b : Nat) : step taps (a ^^^ b) = step taps a ^^^ step taps b := by
  have lowest : ((a ^^^ b) &&& 1) * taps = (a &&& 1) * taps ^^^ (b &&& 1) * taps := by
    rw [Nat.and_xor_distrib_right, Nat.and_one_is_mod, Nat.and_one_is_mod]
    rcases Nat.mod_two_eq_zero_or_one a with first | first
    · rw [first, Nat.zero_mul, Nat.zero_xor, Nat.zero_xor]
    · rcases Nat.mod_two_eq_zero_or_one b with second | second
      · rw [second, Nat.zero_mul, Nat.xor_zero, Nat.xor_zero]
      · rw [first, second, Nat.xor_self, Nat.xor_self, Nat.zero_mul]
  unfold step
  rw [lowest, ← Nat.shiftRight_xor_distrib]
  generalize (a &&& 1) * taps = first, (b &&& 1) * taps = second
  rw [Nat.xor_assoc, Nat.xor_assoc, ← Nat.xor_assoc b, Nat.xor_comm b, Nat.xor_assoc]

theorem step_two_pow (n : Nat) : step taps (2 ^ (n + 1)) = 2 ^ n := by
  unfold step
  rw [Nat.and_one_is_mod, Nat.pow_succ, Nat.mul_mod_left, Nat.zero_mul, Nat.xor_zero,
    Nat.shiftRight_one, Nat.mul_div_cancel _ (by decide)]

theorem iterate_two_pow (n : Nat) : (step taps)^[n] (2 ^ n) = 1 := by
  induction n with
  | zero => rfl
  | succ n inductionHypothesis =>
    rw [Function.iterate_succ_apply, step_two_pow, inductionHypothesis]

theorem iterate_zero (n : Nat) : (step taps)^[n] 0 = 0 := by
  induction n with
  | zero => rfl
  | succ n inductionHypothesis => rw [Function.iterate_succ_apply, step_zero, inductionHypothesis]

/-- A step stays within the width of the register. -/
theorem step_lt {width s : Nat} (low : taps < 2 ^ (width + 1)) (small : s < 2 ^ width) :
    step taps s < 2 ^ width := by
  have flipped : s ^^^ ((s &&& 1) * taps) < 2 ^ (width + 1) := by
    refine Nat.xor_lt_two_pow (small.trans (Nat.pow_lt_pow_right (by decide) (by omega))) ?_
    rw [Nat.and_one_is_mod]
    rcases Nat.mod_two_eq_zero_or_one s with first | first
    · rw [first, Nat.zero_mul]
      exact Nat.two_pow_pos _
    · rw [first, Nat.one_mul]
      exact low
  unfold step
  rw [Nat.shiftRight_one]
  omega

theorem iterate_lt {width s : Nat} (low : taps < 2 ^ (width + 1)) (small : s < 2 ^ width)
    (n : Nat) : (step taps)^[n] s < 2 ^ width := by
  induction n with
  | zero => exact small
  | succ n inductionHypothesis =>
    rw [Function.iterate_succ_apply']
    exact step_lt low inductionHypothesis

/-! ## Products -/

/-- The sum of a state and the states behind it, for the bits of a factor, the highest one first. -/
def product (taps factor : Nat) : Nat → Nat → Nat
  | 0, _ => 0
  | n + 1, s => (if factor.testBit n then s else 0) ^^^ product taps factor n (step taps s)

theorem step_product (factor n s : Nat) :
    step taps (product taps factor n s) = product taps factor n (step taps s) := by
  induction n generalizing s with
  | zero => exact step_zero
  | succ n inductionHypothesis =>
    unfold product
    rw [step_xor, inductionHypothesis]
    split
    · rfl
    · rw [step_zero]

theorem iterate_product (factor n s steps : Nat) :
    (step taps)^[steps] (product taps factor n s) =
      product taps factor n ((step taps)^[steps] s) := by
  induction steps generalizing s with
  | zero => rfl
  | succ steps inductionHypothesis =>
    rw [Function.iterate_succ_apply, step_product, inductionHypothesis,
      ← Function.iterate_succ_apply]

/-- The product with the bit above the factor takes its bits together again. -/
theorem product_step (factor n : Nat) :
    product taps factor n (step taps (2 ^ n)) = factor % 2 ^ n := by
  induction n with
  | zero => exact (Nat.mod_one factor).symm
  | succ n inductionHypothesis =>
    unfold product
    rw [step_two_pow, inductionHypothesis]
    refine Nat.eq_of_testBit_eq fun i => ?_
    rw [Nat.testBit_xor, Nat.testBit_mod_two_pow, Nat.testBit_mod_two_pow]
    have bit : (if factor.testBit n then 2 ^ n else 0).testBit i =
        (decide (i = n) && factor.testBit i) := by
      split
      case isTrue set =>
        rw [Nat.testBit_two_pow]
        by_cases same : n = i
        · rw [decide_eq_true same, decide_eq_true same.symm, ← same, set]
          rfl
        · rw [decide_eq_false same, decide_eq_false (Ne.symm same)]
          rfl
      case isFalse clear =>
        rw [Nat.zero_testBit]
        by_cases same : i = n
        · rw [same, Bool.eq_false_iff.mpr clear, Bool.and_false]
        · rw [decide_eq_false same]
          rfl
    rw [bit]
    by_cases less : i < n
    · rw [decide_eq_false (by omega : ¬ i = n), decide_eq_true less,
        decide_eq_true (by omega : i < n + 1), Bool.false_and, Bool.false_xor]
    · rw [decide_eq_false less, Bool.false_and, Bool.xor_false]
      have iff : (i = n) = (i < n + 1) := propext (by omega)
      simp only [iff]

theorem product_two_pow {width factor : Nat} (small : factor < 2 ^ (width + 1)) :
    product taps factor (width + 1) (2 ^ width) = factor := by
  rw [← @step_two_pow taps, product_step, Nat.mod_eq_of_lt small]

/-- The product of a state with itself. -/
def square (taps width s : Nat) : Nat := product taps s (width + 1) s

section Period

variable {width : Nat}

/-- Twice the steps are the square. -/
theorem iterate_double (low : taps < 2 ^ (width + 2)) (steps : Nat) :
    (step taps)^[2 * steps] (2 ^ width) = square taps width ((step taps)^[steps] (2 ^ width)) := by
  have small := iterate_lt low (Nat.pow_lt_pow_right (by decide) (Nat.lt_succ_self width)) steps
  have same := @product_two_pow taps width _ small
  calc (step taps)^[2 * steps] (2 ^ width)
      = (step taps)^[steps] ((step taps)^[steps] (2 ^ width)) := by
        rw [Nat.two_mul, Function.iterate_add_apply]
    _ = (step taps)^[steps] (product taps ((step taps)^[steps] (2 ^ width)) (width + 1)
          (2 ^ width)) := by rw [same]
    _ = square taps width ((step taps)^[steps] (2 ^ width)) := iterate_product _ _ _ _

theorem iterate_square (low : taps < 2 ^ (width + 2)) (n : Nat) :
    (step taps)^[2 ^ n] (2 ^ width) = (square taps width)^[n] (step taps (2 ^ width)) := by
  induction n with
  | zero => rfl
  | succ n inductionHypothesis =>
    rw [Nat.pow_succ, Nat.mul_comm, iterate_double low, inductionHypothesis,
      Function.iterate_succ_apply']

/-- A register that the squares bring back has the full period, if that period is prime. -/
theorem minimalPeriod_one (low : taps < 2 ^ (width + 2))
    (back : (square taps width)^[width + 1] (step taps (2 ^ width)) = step taps (2 ^ width))
    (moves : step taps 1 ≠ 1) (prime : (2 ^ (width + 1) - 1).Prime) :
    Function.minimalPeriod (step taps) 1 = 2 ^ (width + 1) - 1 := by
  have returns : Function.IsPeriodicPt (step taps) (2 ^ (width + 1) - 1)
      (step taps (2 ^ width)) := by
    show (step taps)^[2 ^ (width + 1) - 1] (step taps (2 ^ width)) = _
    rw [← Function.iterate_succ_apply, Nat.succ_eq_add_one,
      Nat.sub_add_cancel Nat.one_le_two_pow, iterate_square low, back]
  have periodic : Function.IsPeriodicPt (step taps) (2 ^ (width + 1) - 1) 1 := by
    cases width with
    | zero => exact absurd prime (by decide)
    | succ width =>
      rw [step_two_pow] at returns
      have later := returns.apply_iterate width
      rw [iterate_two_pow] at later
      exact later
  rcases (Nat.dvd_prime prime).mp periodic.minimalPeriod_dvd with one | full
  · exact absurd (Function.minimalPeriod_eq_one_iff_isFixedPt.mp one) moves
  · exact full

/-- With a known period, numbers of steps that leave the same state are congruent. -/
theorem iterate_eq_iff {period : Nat} (full : Function.minimalPeriod (step taps) 1 = period)
    (positive : 0 < period) (i j : Nat) :
    (step taps)^[i] 1 = (step taps)^[j] 1 ↔ i % period = j % period := by
  rw [← @Function.iterate_mod_minimalPeriod_eq _ (step taps) 1 i,
    ← @Function.iterate_mod_minimalPeriod_eq _ (step taps) 1 j, full]
  refine Function.iterate_eq_iterate_iff_of_lt_minimalPeriod ?_ ?_
  · rw [full]
    exact Nat.mod_lt _ positive
  · rw [full]
    exact Nat.mod_lt _ positive

/-- A register with a period never becomes zero. -/
theorem iterate_ne_zero (positive : 0 < Function.minimalPeriod (step taps) 1) (n : Nat) :
    (step taps)^[n] 1 ≠ 0 := by
  intro zero
  have back := @Function.iterate_mod_minimalPeriod_eq _ (step taps) 1
    (n * Function.minimalPeriod (step taps) 1)
  have more : n ≤ n * Function.minimalPeriod (step taps) 1 := Nat.le_mul_of_pos_right n positive
  rw [Nat.mul_mod_left, ← Nat.sub_add_cancel more, Function.iterate_add_apply, zero,
    iterate_zero] at back
  cases back

/-- A register with the full period comes by every state but zero. -/
theorem exists_iterate (low : taps < 2 ^ (width + 2))
    (full : Function.minimalPeriod (step taps) 1 = 2 ^ (width + 1) - 1) {s : Nat}
    (positive : 0 < s) (small : s < 2 ^ (width + 1)) :
    ∃ n < 2 ^ (width + 1) - 1, (step taps)^[n] 1 = s := by
  have period : 0 < Function.minimalPeriod (step taps) 1 := by
    rw [full]
    omega
  have into : ∀ n ∈ Finset.range (2 ^ (width + 1) - 1),
      (step taps)^[n] 1 ∈ Finset.Ico 1 (2 ^ (width + 1)) := fun n _ =>
    Finset.mem_Ico.mpr ⟨Nat.pos_of_ne_zero (iterate_ne_zero period n),
      iterate_lt low (Nat.one_lt_two_pow (Nat.succ_ne_zero _)) n⟩
  have apart : ∀ i ∈ Finset.range (2 ^ (width + 1) - 1), ∀ j ∈ Finset.range (2 ^ (width + 1) - 1),
      (step taps)^[i] 1 = (step taps)^[j] 1 → i = j := by
    intro i first j second same
    rw [Finset.mem_range, ← full] at first second
    exact (Function.iterate_eq_iterate_iff_of_lt_minimalPeriod first second).mp same
  have card : (Finset.Ico 1 (2 ^ (width + 1))).card ≤
      (Finset.range (2 ^ (width + 1) - 1)).card := by
    rw [Nat.card_Ico, Finset.card_range]
  obtain ⟨n, inside, here⟩ := Finset.surj_on_of_inj_on_of_card_le (fun n _ => (step taps)^[n] 1)
    into (fun i j first second same => apart i first j second same) card s
    (Finset.mem_Ico.mpr ⟨positive, small⟩)
  exact ⟨n, Finset.mem_range.mp inside, here.symm⟩

end Period

end FeedbackRegister

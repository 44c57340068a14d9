import Mathlib.Algebra.BigOperators.Group.Finset.Basic
import Mathlib.Algebra.BigOperators.Ring.Finset
import Mathlib.Tactic.IntervalCases
import Mathlib.Tactic.Ring

/-!
# Resampler

A rational resampler inserts zeros, filters, and keeps one sample of many. The code keeps one
filter for each phase instead, and computes only the phase that the next output needs. The
arithmetic is exact here; what rounds the finished output is a parameter.
-/

open Finset

namespace VectorDebugger

variable {R : Type} [CommSemiring R]

/-- `coredsp::FIR`: its coefficients and its last inputs, the newest first. -/
structure Fir (R : Type) where
  /-- The coefficients. -/
  coefs : Nat → R
  /-- The inputs. -/
  inputs : Nat → R

namespace Fir

/-- `FIR::in`. -/
def push (fir : Fir R) (s : R) : Fir R :=
  { fir with inputs := fun k => if k = 0 then s else fir.inputs (k - 1) }

/-- `FIR::out` — the dot product of the coefficients with the last inputs. -/
def out (fir : Fir R) (ntaps : Nat) : R := ∑ k ∈ range ntaps, fir.coefs k * fir.inputs k

end Fir

/-- `Resampler`. -/
structure Resampler (R : Type) where
  /-- `egg` — there is an output. -/
  egg : Bool
  /-- `dcm_ctr`. -/
  dcmCtr : Int
  /-- `filterbank`. -/
  filterbank : Nat → Fir R
  /-- `out`. -/
  out : R
  /-- `thru`. -/
  thru : Bool

namespace Resampler

/-- `UP`. -/
def up : Nat := 5

/-- `DOWN`. -/
def down : Nat := 156

/-- `NTAPS`. -/
def ntaps (allTaps : Nat) : Nat := (allTaps + up) / up

/-- `padded`. -/
def padded (allTaps : Nat) (coefs : Nat → R) (i : Nat) : R := if i < allTaps then coefs i else 0

/-- `Resampler::Resampler`, with `create_filter`. The source leaves `egg` and `out` as they are. -/
def create (allTaps : Nat) (coefs : Nat → R) (egg : Bool) (out : R) : Resampler R where
  egg := egg
  dcmCtr := 0
  filterbank := fun phase =>
    { coefs := fun k => padded allTaps coefs (phase + up * k), inputs := fun _ => 0 }
  out := out
  thru := false

/-- `phase` in `Resampler::sample`. -/
def phase (dcmCtr : Int) : Int := up - dcmCtr - 1

/-- `Resampler::sample`. -/
def sample (allTaps : Nat) (round : R → R) (resampler : Resampler R) (s : R) : Resampler R :=
  if !resampler.thru then
    let filterbank := fun i => (resampler.filterbank i).push s
    let dcmCtr := resampler.dcmCtr + up
    if dcmCtr ≥ down then
      let dcmCtr := dcmCtr - down
      { resampler with
        filterbank, dcmCtr, egg := true
        out := round (up * (filterbank (phase dcmCtr).toNat).out (ntaps allTaps)) }
    else { resampler with filterbank, dcmCtr }
  else
    let dcmCtr := resampler.dcmCtr + up
    if dcmCtr ≥ down then { resampler with dcmCtr := dcmCtr - down, egg := true, out := s }
    else { resampler with dcmCtr, out := s }

/-- A call of a caller that has taken the output before. -/
def feed (allTaps : Nat) (round : R → R) (resampler : Resampler R) (s : R) : Resampler R :=
  sample allTaps round { resampler with egg := false } s

/-- The resampler after the first `n` inputs. -/
def after (allTaps : Nat) (round : R → R) (start : Resampler R) (xs : Nat → R) :
    Nat → Resampler R
  | 0 => start
  | n + 1 => feed allTaps round (after allTaps round start xs n) (xs n)

/-! ## The plain resampler -/

/-- The inputs with four zeros after each. -/
def upsampled (xs : Nat → R) (m : Nat) : R := if m % up = 0 then xs (m / up) else 0

/-- The filter with all coefficients, scaled by `UP`, on the upsampled inputs. -/
def filtered (allTaps : Nat) (coefs : Nat → R) (xs : Nat → R) (m : Nat) : R :=
  ∑ i ∈ range allTaps, up * coefs i * if i ≤ m then upsampled xs (m - i) else 0

/-- The `k`-th sample that is kept, of every `DOWN`. -/
def keptAt (k : Nat) : Nat := down * (k + 1) - 1

/-! ## The phases -/

/-- A sum over a multiple of five terms, in fives. -/
theorem sum_fives (f : Nat → R) (n : Nat) :
    ∑ i ∈ range (5 * n), f i = ∑ k ∈ range n, ∑ j ∈ range 5, f (5 * k + j) := by
  induction n with
  | zero => rfl
  | succ n inductionHypothesis =>
    rw [sum_range_succ _ n, ← inductionHypothesis, Nat.mul_succ, sum_range_add]

/-- The filter of one phase gives what the whole filter gives at its place. -/
theorem phase_eq_filtered (allTaps : Nat) (coefs xs : Nat → R) (n : Nat) {j : Nat}
    (small : j < up) :
    (up : R) * ∑ k ∈ range (ntaps allTaps), padded allTaps coefs (j + up * k) *
        (if k ≤ n then xs (n - k) else 0) =
      filtered allTaps coefs xs (up * n + j) := by
  let term (i : Nat) : R := padded allTaps coefs i *
    if i ≤ up * n + j then upsampled xs (up * n + j - i) else 0
  have enough : allTaps ≤ 5 * ntaps allTaps := by
    unfold ntaps up
    omega
  have whole : filtered allTaps coefs xs (up * n + j) =
      up * ∑ i ∈ range (5 * ntaps allTaps), term i := by
    have rest : ∑ i ∈ range (5 * ntaps allTaps), term i = ∑ i ∈ range allTaps, term i := by
      refine (sum_subset (range_subset_range.mpr enough) ?_).symm
      intro i _ outside
      have beyond : ¬ i < allTaps := fun inside => outside (mem_range.mpr inside)
      show padded allTaps coefs i * _ = 0
      unfold padded
      rw [if_neg beyond, zero_mul]
    rw [rest, mul_sum]
    refine sum_congr rfl fun i inside => ?_
    show _ = up * (padded allTaps coefs i * _)
    unfold padded
    rw [if_pos (mem_range.mp inside), mul_assoc]
  rw [whole, sum_fives]
  congr 1
  refine sum_congr rfl fun k _ => ?_
  have small' : j < 5 := small
  have alone : ∀ other ∈ range 5, other ≠ j → term (5 * k + other) = 0 := by
    intro other inside different
    have below := mem_range.mp inside
    show _ * (if _ then upsampled xs _ else 0) = 0
    by_cases reached : 5 * k + other ≤ up * n + j
    · have between : (up * n + j - (5 * k + other)) % up ≠ 0 := by
        unfold up at reached ⊢
        omega
      unfold upsampled
      rw [if_pos reached, if_neg between, mul_zero]
    · rw [if_neg reached, mul_zero]
  rw [sum_eq_single j alone fun outside => absurd (mem_range.mpr small') outside]
  show _ = padded allTaps coefs (5 * k + j) * if 5 * k + j ≤ up * n + j then _ else 0
  rw [Nat.add_comm j]
  by_cases reached : k ≤ n
  · have inside : 5 * k + j ≤ up * n + j := by
      unfold up
      omega
    have even : (up * n + j - (5 * k + j)) % up = 0 := by
      unfold up
      omega
    have position : (up * n + j - (5 * k + j)) / up = n - k := by
      unfold up
      omega
    unfold upsampled
    rw [if_pos reached, if_pos inside, if_pos even, position]
    rfl
  · have outside : ¬ 5 * k + j ≤ up * n + j := by
      unfold up
      omega
    rw [if_neg reached, if_neg outside]
    rfl

/-! ## The run -/

/-- The resampler after `n` inputs: the counter is the place in the upsampled stream, and every
filter has the inputs so far. -/
structure Reached (allTaps : Nat) (coefs xs : Nat → R) (n : Nat) (resampler : Resampler R) :
    Prop where
  thru : resampler.thru = false
  dcmCtr : resampler.dcmCtr = ((up * n % down : Nat) : Int)
  coefs : ∀ phase k, (resampler.filterbank phase).coefs k =
    padded allTaps coefs (phase + up * k)
  inputs : ∀ phase k, (resampler.filterbank phase).inputs k =
    if k < n then xs (n - 1 - k) else 0

/-- A constructed resampler has seen nothing. -/
theorem reached_create (allTaps : Nat) (coefs xs : Nat → R) (egg : Bool) (out : R) :
    Reached allTaps coefs xs 0 (create allTaps coefs egg out) where
  thru := rfl
  dcmCtr := rfl
  coefs := fun _ _ => rfl
  inputs := fun _ k => (if_neg (Nat.not_lt_zero k)).symm

/-- The inputs of a filter after one more. -/
theorem pushed_inputs (xs : Nat → R) (n k : Nat) :
    (if k = 0 then xs n else if k - 1 < n then xs (n - 1 - (k - 1)) else 0) =
      if k < n + 1 then xs (n + 1 - 1 - k) else 0 := by
  by_cases first : k = 0
  · rw [if_pos first, if_pos (by omega)]
    congr 1
    omega
  · rw [if_neg first]
    by_cases known : k - 1 < n
    · rw [if_pos known, if_pos (by omega)]
      congr 1
      omega
    · rw [if_neg known, if_neg (by omega)]

/-- The counter passes the end of its period when a kept sample is among the next five. -/
theorem passes_iff (m : Nat) : down ≤ m % down + up ↔ ∃ k, m ≤ keptAt k ∧ keptAt k < m + up := by
  unfold keptAt up down
  constructor
  · intro passes
    exact ⟨m / 156, by omega, by omega⟩
  · rintro ⟨k, low, high⟩
    omega

/-- The counter of the next input, and the phase of the sample that is kept. -/
theorem counter_next (m : Nat) (passes : down ≤ m % down + up) :
    ((m % down : Nat) : Int) + up - down = (((m + up) % down : Nat) : Int) ∧
      (m + up) % down ≤ 4 ∧ ∀ k, m ≤ keptAt k → keptAt k < m + up →
        phase (((m % down : Nat) : Int) + up - down) = ((keptAt k - m : Nat) : Int) := by
  unfold phase keptAt up down at *
  refine ⟨by omega, by omega, ?_⟩
  intro k low high
  omega

/-- What one call does: it marks an output when a kept sample of the upsampled stream comes up, and
gives its value. -/
structure FeedSpec (allTaps : Nat) (coefs : Nat → R) (round : R → R) (xs : Nat → R) (n : Nat)
    (fed : Resampler R) : Prop where
  egg : fed.egg = true ↔ ∃ k, up * n ≤ keptAt k ∧ keptAt k < up * (n + 1)
  out : ∀ k, up * n ≤ keptAt k → keptAt k < up * (n + 1) →
    fed.out = round (filtered allTaps coefs xs (keptAt k))
  phase : fed.egg = true → 0 ≤ phase fed.dcmCtr ∧ phase fed.dcmCtr ≤ 4

/-- One call keeps the counter and the inputs in step. -/
theorem Reached.feed {allTaps : Nat} {coefs xs : Nat → R} {n : Nat} {resampler : Resampler R}
    (reached : Reached allTaps coefs xs n resampler) (round : R → R) :
    Reached allTaps coefs xs (n + 1) (feed allTaps round resampler (xs n)) ∧
      FeedSpec allTaps coefs round xs n (feed allTaps round resampler (xs n)) := by
  have inputs : ∀ phase k, ((resampler.filterbank phase).push (xs n)).inputs k =
      if k < n + 1 then xs (n + 1 - 1 - k) else 0 := by
    intro phase k
    show (if k = 0 then xs n else (resampler.filterbank phase).inputs (k - 1)) = _
    rw [reached.inputs, pushed_inputs]
  unfold Resampler.feed sample
  dsimp only
  rw [reached.thru, reached.dcmCtr]
  simp only [Bool.not_false, ↓reduceIte]
  have next : up * (n + 1) = up * n + up := Nat.mul_succ up n
  have passes := passes_iff (up * n)
  rw [← next] at passes
  by_cases turns : down ≤ up * n % down + up
  · obtain ⟨counter, least, place⟩ := counter_next (up * n) turns
    rw [← next] at counter least place
    have turned : ((up * n % down : Nat) : Int) + up ≥ down := by omega
    rw [if_pos turned]
    refine ⟨⟨rfl, counter, reached.coefs, inputs⟩, iff_of_true rfl (passes.mp turns), ?_, ?_⟩
    · intro k low high
      have small : keptAt k - up * n < up := by omega
      have position : up * n + (keptAt k - up * n) = keptAt k := by omega
      have value := phase_eq_filtered allTaps coefs xs n small
      rw [position] at value
      dsimp only
      rw [place k low high, Int.toNat_natCast, ← value]
      refine congrArg (fun sum => round (up * sum)) (sum_congr rfl fun i _ => ?_)
      have here := inputs (keptAt k - up * n) i
      rw [here]
      show (resampler.filterbank _).coefs i * _ = _
      rw [reached.coefs, Nat.add_sub_cancel]
      congr 1
      by_cases known : i ≤ n
      · rw [if_pos known, if_pos (Nat.lt_succ_of_le known)]
      · rw [if_neg known, if_neg (by omega)]
    · intro _
      show 0 ≤ phase (((up * n % down : Nat) : Int) + up - down) ∧
        phase (((up * n % down : Nat) : Int) + up - down) ≤ 4
      rw [counter]
      unfold phase up at *
      omega
  · have stays : ¬ ((up * n % down : Nat) : Int) + up ≥ down := by omega
    rw [if_neg stays]
    refine ⟨⟨rfl, ?_, reached.coefs, inputs⟩, ?_, ?_, ?_⟩
    · show ((up * n % down : Nat) : Int) + up = _
      rw [next, ← Nat.mod_add_mod, Nat.mod_eq_of_lt (Nat.lt_of_not_le turns)]
      rfl
    · exact iff_of_false Bool.false_ne_true fun kept => turns (passes.mpr kept)
    · exact fun k low high => absurd (passes.mpr ⟨k, low, high⟩) turns
    · exact fun marked => absurd marked Bool.false_ne_true

/-- So does a run. -/
theorem reached_after (allTaps : Nat) (coefs : Nat → R) (round : R → R) (egg : Bool) (out : R)
    (xs : Nat → R) (n : Nat) :
    Reached allTaps coefs xs n (after allTaps round (create allTaps coefs egg out) xs n) := by
  induction n with
  | zero => exact reached_create allTaps coefs xs egg out
  | succ n inductionHypothesis => exact (inductionHypothesis.feed round).1

/-- The polyphase resampler equals the plain one. Each input gives an output exactly if one of the
five samples it becomes in the upsampled stream is kept, and then the output is that sample of the
filtered stream; the phase that gives it is one of the five. -/
theorem resampler_eq_plain (allTaps : Nat) (coefs : Nat → R) (round : R → R) (egg : Bool) (out : R)
    (xs : Nat → R) (n : Nat) :
    FeedSpec allTaps coefs round xs n
      (feed allTaps round (after allTaps round (create allTaps coefs egg out) xs n) (xs n)) :=
  ((reached_after allTaps coefs round egg out xs n).feed round).2

end Resampler

end VectorDebugger

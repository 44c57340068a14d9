import Mathlib

/-!
# Maximal runs

The numbers below a bound that have a property form maximal runs, half-open intervals with a gap
after each. A list of runs is fixed by the property. A scan that goes up may build it from the
front, run by run, or from the back, number by number.
-/

namespace Runs

variable {p : Nat → Bool} {n : Nat}

/-- A maximal interval of numbers with the property, from `lo` to before `hi`. -/
structure IsRun (p : Nat → Bool) (n lo hi : Nat) : Prop where
  /-- It is not empty. -/
  nonempty : lo < hi
  /-- It is below the bound. -/
  bounded : hi ≤ n
  /-- All its numbers have the property. -/
  inside : ∀ k, lo ≤ k → k < hi → p k = true
  /-- The number before it has not. -/
  before : lo = 0 ∨ p (lo - 1) = false
  /-- Nor has the number after it. -/
  after : hi = n ∨ p hi = false

/-- The list is that of the maximal runs from a number on, in order. -/
structure MaximalFrom (p : Nat → Bool) (n start : Nat) (runs : List (Nat × Nat)) : Prop where
  /-- Each is a maximal run. -/
  each : ∀ run ∈ runs, start ≤ run.1 ∧ IsRun p n run.1 run.2
  /-- They are in order, with a gap after each. -/
  ascending : runs.Pairwise fun one other => one.2 < other.1
  /-- None is left out. -/
  complete : ∀ k, start ≤ k → k < n → p k = true → ∃ run ∈ runs, run.1 ≤ k ∧ k < run.2

/-- The list is that of all maximal runs, in order. -/
abbrev Maximal (p : Nat → Bool) (n : Nat) (runs : List (Nat × Nat)) : Prop :=
  MaximalFrom p n 0 runs

/-! ### From the front -/

namespace MaximalFrom

variable {start stop : Nat} {runs : List (Nat × Nat)}

theorem nil (past : n ≤ start) : MaximalFrom p n start [] where
  each := fun _ listed => absurd listed List.not_mem_nil
  ascending := List.Pairwise.nil
  complete := by
    intro k low high
    omega

/-- A number without the property is passed. -/
theorem skip (bare : p start = false) (rest : MaximalFrom p n (start + 1) runs) :
    MaximalFrom p n start runs where
  each := by
    intro run listed
    have spec := rest.each run listed
    exact ⟨by omega, spec.2⟩
  ascending := rest.ascending
  complete := by
    intro k low high has
    have other : k ≠ start := by
      intro same
      rw [same, bare] at has
      cases has
    exact rest.complete k (by omega) high has

/-- A run is followed by the runs after it. -/
theorem cons (first : IsRun p n start stop) (rest : MaximalFrom p n stop runs) :
    MaximalFrom p n start ((start, stop) :: runs) where
  each := by
    have low := first.nonempty
    intro run listed
    rcases List.mem_cons.mp listed with here | later
    · rw [here]
      exact ⟨Nat.le_refl _, first⟩
    · have spec := rest.each run later
      exact ⟨by omega, spec.2⟩
  ascending := by
    refine List.pairwise_cons.mpr ⟨fun run listed => ?_, rest.ascending⟩
    have spec := rest.each run listed
    have some' := spec.2.nonempty
    have bound := spec.2.bounded
    have apart : stop ≠ run.1 := by
      intro same
      rcases first.after with last | bare
      · omega
      · have has := spec.2.inside run.1 (Nat.le_refl _) some'
        rw [← same, bare] at has
        cases has
    have low := spec.1
    dsimp only
    omega
  complete := by
    intro k low high has
    by_cases here : k < stop
    · exact ⟨(start, stop), List.mem_cons_self, low, here⟩
    · obtain ⟨run, listed, inside⟩ := rest.complete k (by omega) high has
      exact ⟨run, List.mem_cons_of_mem _ listed, inside⟩

/-- What follows the first run. -/
theorem tail {lo hi : Nat} (all : MaximalFrom p n start ((lo, hi) :: runs)) :
    MaximalFrom p n hi runs where
  each := by
    intro run listed
    have gap := (List.pairwise_cons.mp all.ascending).1 run listed
    exact ⟨Nat.le_of_lt gap, (all.each run (List.mem_cons_of_mem _ listed)).2⟩
  ascending := (List.pairwise_cons.mp all.ascending).2
  complete := by
    intro k low high has
    have first := all.each (lo, hi) List.mem_cons_self
    have some' := first.2.nonempty
    have from' := first.1
    dsimp only at some' from'
    obtain ⟨run, listed, inside⟩ := all.complete k (by omega) high has
    rcases List.mem_cons.mp listed with here | later
    · rw [here] at inside
      dsimp only at inside
      omega
    · exact ⟨run, later, inside⟩

/-- The lengths of the runs add up to the number of numbers with the property. -/
theorem sum_lengths (all : MaximalFrom p n start runs) :
    (runs.map fun run => run.2 - run.1).sum = (List.range' start (n - start)).countP p := by
  have none' : ∀ low count : Nat, (∀ k, low ≤ k → k < low + count → p k = false) →
      (List.range' low count).countP p = 0 := by
    intro low count bare
    rw [List.countP_eq_zero]
    intro k listed
    rw [List.mem_range'_1] at listed
    rw [bare k listed.1 listed.2]
    exact Bool.false_ne_true
  induction runs generalizing start with
  | nil =>
    rw [none' start (n - start)]
    · rfl
    · intro k low high
      by_contra has
      obtain ⟨run, listed, -⟩ :=
        all.complete k low (by omega) (Bool.not_eq_false _ |>.mp has)
      exact absurd listed List.not_mem_nil
  | cons run rest inductionHypothesis =>
    obtain ⟨lo, hi⟩ := run
    have first := all.each (lo, hi) List.mem_cons_self
    have low := first.1
    have some' := first.2.nonempty
    have bound := first.2.bounded
    dsimp only at low some' bound
    have later := inductionHypothesis all.tail
    have ahead : (List.range' start (lo - start)).countP p = 0 := by
      refine none' _ _ fun k above below => ?_
      by_contra has
      obtain ⟨run, listed, inside⟩ :=
        all.complete k above (by omega) (Bool.not_eq_false _ |>.mp has)
      rcases List.mem_cons.mp listed with here | after
      · rw [here] at inside
        dsimp only at inside
        omega
      · have gap := (List.pairwise_cons.mp all.ascending).1 run after
        dsimp only at gap
        omega
    have here : (List.range' lo (hi - lo)).countP p = hi - lo := by
      rw [List.countP_eq_length.mpr, List.length_range']
      intro k listed
      rw [List.mem_range'_1] at listed
      exact first.2.inside k listed.1 (by omega)
    have split : List.range' start (n - start) =
        List.range' start (lo - start) ++
          (List.range' lo (hi - lo) ++ List.range' hi (n - hi)) := by
      have one : n - start = (lo - start) + ((hi - lo) + (n - hi)) := by omega
      have two : start + (lo - start) = lo := by omega
      have three : lo + (hi - lo) = hi := by omega
      rw [one, ← List.range'_append_1, ← List.range'_append_1, two, three]
    rw [split, List.countP_append, List.countP_append, ahead, here, List.map_cons, List.sum_cons,
      later]
    omega

end MaximalFrom

/-! ### A scan from the front -/

/-- The first number from `i` on that has not the property, or the bound, with a bound on the
steps. -/
def endFrom (p : Nat → Bool) (n : Nat) : Nat → Nat → Nat
  | 0, i => i
  | fuel + 1, i => if i < n && p i then endFrom p n fuel (i + 1) else i

/-- The runs from `i` on, with a bound on the steps. -/
def scan (p : Nat → Bool) (n : Nat) : Nat → Nat → List (Nat × Nat)
  | 0, _ => []
  | fuel + 1, i =>
    if i < n then
      if p i then
        let stop := endFrom p n (n - i) i
        (i, stop) :: scan p n fuel stop
      else scan p n fuel (i + 1)
    else []

/-- A run goes on to the first number that has not the property, or to the bound. -/
theorem endFrom_spec {fuel i : Nat} (inside : i ≤ n) (enough : n - i ≤ fuel) :
    i ≤ endFrom p n fuel i ∧ endFrom p n fuel i ≤ n ∧
      (∀ k, i ≤ k → k < endFrom p n fuel i → p k = true) ∧
      (endFrom p n fuel i = n ∨ p (endFrom p n fuel i) = false) := by
  induction fuel generalizing i with
  | zero =>
    have last : i = n := by omega
    unfold endFrom
    refine ⟨Nat.le_refl i, inside, fun k low high => ?_, Or.inl last⟩
    omega
  | succ fuel inductionHypothesis =>
    unfold endFrom
    by_cases more : (decide (i < n) && p i) = true
    · rw [if_pos more]
      rw [Bool.and_eq_true, decide_eq_true_eq] at more
      obtain ⟨low, high, all, ends⟩ := @inductionHypothesis (i + 1) (by omega) (by omega)
      refine ⟨by omega, high, fun k above below => ?_, ends⟩
      by_cases here : k = i
      · rw [here]
        exact more.2
      · exact all k (by omega) below
    · rw [if_neg more]
      rw [Bool.and_eq_true, decide_eq_true_eq] at more
      refine ⟨Nat.le_refl i, inside, fun k low high => ?_, ?_⟩
      · omega
      · by_cases last : i = n
        · exact Or.inl last
        · have bare : ¬ p i = true := fun has => more ⟨by omega, has⟩
          exact Or.inr (Bool.not_eq_true _ ▸ bare)

/-- A run that starts with a number of the property is not empty. -/
theorem lt_endFrom {fuel i : Nat} (inside : i < n) (enough : n - i ≤ fuel) (has : p i = true) :
    i < endFrom p n fuel i := by
  obtain ⟨low, high, all, ends⟩ := @endFrom_spec p n fuel i (Nat.le_of_lt inside) enough
  rcases ends with last | bare
  · omega
  · by_contra none'
    have same : endFrom p n fuel i = i := by omega
    rw [same, has] at bare
    cases bare

/-- The scan lists the maximal runs from a number that does not continue one. -/
theorem scan_maximal {fuel i : Nat} (enough : n - i ≤ fuel)
    (before : i = 0 ∨ p (i - 1) = false ∨ n ≤ i ∨ p i = false) :
    MaximalFrom p n i (scan p n fuel i) := by
  induction fuel generalizing i with
  | zero => exact MaximalFrom.nil (by omega)
  | succ fuel inductionHypothesis =>
    unfold scan
    by_cases inside : i < n
    · rw [if_pos inside]
      cases mark : p i with
      | true =>
        rw [if_pos rfl]
        dsimp only
        obtain ⟨low, high, all, ends⟩ :=
          @endFrom_spec p n (n - i) i (Nat.le_of_lt inside) (Nat.le_refl _)
        have first : i < endFrom p n (n - i) i := lt_endFrom inside (Nat.le_refl _) mark
        have open' : i = 0 ∨ p (i - 1) = false := by
          rcases before with zero | bare | past | bare
          · exact Or.inl zero
          · exact Or.inr bare
          · omega
          · rw [mark] at bare
            cases bare
        have stopped : n ≤ endFrom p n (n - i) i ∨ p (endFrom p n (n - i) i) = false :=
          ends.imp_left fun last => Nat.le_of_eq last.symm
        have rest := @inductionHypothesis (endFrom p n (n - i) i) (by omega)
          (Or.inr (Or.inr stopped))
        exact MaximalFrom.cons ⟨first, high, all, open', ends⟩ rest
      | false =>
        rw [if_neg Bool.false_ne_true]
        have rest := @inductionHypothesis (i + 1) (by omega) (by
          rw [Nat.add_sub_cancel]
          exact Or.inr (Or.inl mark))
        exact MaximalFrom.skip mark rest
    · rw [if_neg inside]
      exact MaximalFrom.nil (by omega)

/-! ### From the back -/

namespace Maximal

variable {runs : List (Nat × Nat)}

theorem zero : Maximal p 0 [] := MaximalFrom.nil (Nat.le_refl 0)

/-- A number without the property ends the scan so far. -/
theorem pass (bare : p n = false) (sofar : Maximal p n runs) : Maximal p (n + 1) runs where
  each := by
    intro run listed
    have spec := (sofar.each run listed).2
    have bound := spec.bounded
    refine ⟨Nat.zero_le _, spec.nonempty, by omega, spec.inside, spec.before, Or.inr ?_⟩
    rcases spec.after with last | next
    · rw [last]
      exact bare
    · exact next
  ascending := sofar.ascending
  complete := by
    intro k _ high has
    have other : k ≠ n := by
      intro same
      rw [same, bare] at has
      cases has
    exact sofar.complete k (Nat.zero_le k) (by omega) has

/-- A number with the property opens a run when the one before it has not. -/
theorem open' (has : p n = true) (bare : n = 0 ∨ p (n - 1) = false) (sofar : Maximal p n runs) :
    Maximal p (n + 1) (runs ++ [(n, n + 1)]) where
  each := by
    intro run listed
    rcases List.mem_append.mp listed with old | new
    · have spec := (sofar.each run old).2
      have bound := spec.bounded
      have some' := spec.nonempty
      refine ⟨Nat.zero_le _, some', by omega, spec.inside, spec.before, Or.inr ?_⟩
      rcases spec.after with last | next
      · have inside := spec.inside (n - 1) (by omega) (by omega)
        rcases bare with zero | bare
        · omega
        · rw [bare] at inside
          cases inside
      · exact next
    · rw [List.mem_singleton.mp new]
      refine ⟨Nat.zero_le _, Nat.lt_succ_self n, Nat.le_refl _, fun k low high => ?_, bare,
        Or.inl rfl⟩
      have same : k = n := by
        dsimp only at low high
        omega
      rw [same]
      exact has
  ascending := by
    refine List.pairwise_append.mpr ⟨sofar.ascending, List.pairwise_singleton _ _, ?_⟩
    intro run listed new single
    rw [List.mem_singleton.mp single]
    have spec := (sofar.each run listed).2
    have bound := spec.bounded
    have some' := spec.nonempty
    rcases Nat.lt_or_eq_of_le bound with below | last
    · exact below
    · have inside := spec.inside (n - 1) (by omega) (by omega)
      rcases bare with zero | bare
      · omega
      · rw [bare] at inside
        cases inside
  complete := by
    intro k _ high hasK
    by_cases here : k = n
    · exact ⟨(n, n + 1), List.mem_append_right _ (List.mem_singleton_self _), by
        dsimp only
        omega⟩
    · obtain ⟨run, listed, inside⟩ := sofar.complete k (Nat.zero_le k) (by omega) hasK
      exact ⟨run, List.mem_append_left _ listed, inside⟩

/-- A number with the property extends the run before it. -/
theorem extend {lo : Nat} (has : p n = true) (sofar : Maximal p n (runs ++ [(lo, n)])) :
    Maximal p (n + 1) (runs ++ [(lo, n + 1)]) where
  each := by
    have last := (sofar.each (lo, n) (List.mem_append_right _ (List.mem_singleton_self _))).2
    have gaps := (List.pairwise_append.mp sofar.ascending).2.2
    intro run listed
    rcases List.mem_append.mp listed with old | new
    · have spec := (sofar.each run (List.mem_append_left _ old)).2
      have bound := spec.bounded
      have gap := gaps run old (lo, n) (List.mem_singleton_self _)
      have some' := last.nonempty
      dsimp only at gap some'
      refine ⟨Nat.zero_le _, spec.nonempty, by omega, spec.inside, spec.before, Or.inr ?_⟩
      rcases spec.after with same | next
      · omega
      · exact next
    · rw [List.mem_singleton.mp new]
      have some' := last.nonempty
      dsimp only at some'
      refine ⟨Nat.zero_le _, ?_, Nat.le_refl _, fun k low high => ?_, last.before, Or.inl rfl⟩
      · dsimp only
        omega
      · dsimp only at low high
        by_cases here : k = n
        · rw [here]
          exact has
        · exact last.inside k low (by dsimp only; omega)
  ascending := by
    have parts := List.pairwise_append.mp sofar.ascending
    refine List.pairwise_append.mpr ⟨parts.1, List.pairwise_singleton _ _, ?_⟩
    intro run listed new single
    rw [List.mem_singleton.mp single]
    exact parts.2.2 run listed (lo, n) (List.mem_singleton_self _)
  complete := by
    intro k _ high hasK
    have last := (sofar.each (lo, n) (List.mem_append_right _ (List.mem_singleton_self _))).2
    have some' := last.nonempty
    dsimp only at some'
    by_cases here : k = n
    · exact ⟨(lo, n + 1), List.mem_append_right _ (List.mem_singleton_self _), by
        dsimp only
        omega⟩
    · obtain ⟨run, listed, inside⟩ := sofar.complete k (Nat.zero_le k) (by omega) hasK
      rcases List.mem_append.mp listed with old | new
      · exact ⟨run, List.mem_append_left _ old, inside⟩
      · rw [List.mem_singleton.mp new] at inside
        exact ⟨(lo, n + 1), List.mem_append_right _ (List.mem_singleton_self _), by
          dsimp only at inside ⊢
          omega⟩

/-! ### What the runs are -/

/-- Two maximal runs with a common number are the same. -/
theorem isRun_unique {lo hi lo' hi' k : Nat} (one : IsRun p n lo hi) (other : IsRun p n lo' hi')
    (low : lo ≤ k) (high : k < hi) (low' : lo' ≤ k) (high' : k < hi') : lo = lo' ∧ hi = hi' := by
  have left : ∀ {lo hi lo' hi' : Nat}, IsRun p n lo hi → IsRun p n lo' hi' → lo ≤ k → k < hi →
      lo' ≤ k → k < hi' → lo ≤ lo' := by
    intro lo hi lo' hi' one other low high low' high'
    by_contra below
    rcases one.before with zero | bare
    · omega
    · have has := other.inside (lo - 1) (by omega) (by omega)
      rw [bare] at has
      cases has
  have right : ∀ {lo hi lo' hi' : Nat}, IsRun p n lo hi → IsRun p n lo' hi' → lo ≤ k → k < hi →
      lo' ≤ k → k < hi' → hi' ≤ hi := by
    intro lo hi lo' hi' one other low high low' high'
    by_contra above
    have bound := other.bounded
    rcases one.after with last | bare
    · omega
    · have has := other.inside hi (by omega) (by omega)
      rw [bare] at has
      cases has
  exact ⟨Nat.le_antisymm (left one other low high low' high') (left other one low' high' low high),
    Nat.le_antisymm (right other one low' high' low high) (right one other low high low' high')⟩

/-- The list holds the maximal runs and nothing else. -/
theorem mem_iff (all : Maximal p n runs) (lo hi : Nat) : (lo, hi) ∈ runs ↔ IsRun p n lo hi := by
  constructor
  · exact fun listed => (all.each (lo, hi) listed).2
  · intro run
    have bound := run.bounded
    have some' := run.nonempty
    have has := run.inside lo (Nat.le_refl lo) some'
    obtain ⟨other, listed, low, high⟩ := all.complete lo (Nat.zero_le lo) (by omega) has
    have same := isRun_unique run (all.each other listed).2 (Nat.le_refl lo) some' low high
    rw [same.1, same.2]
    exact listed

/-- There is one list of maximal runs. -/
theorem unique {runs' : List (Nat × Nat)} (one : Maximal p n runs) (other : Maximal p n runs') :
    runs = runs' := by
  have order : ∀ {runs : List (Nat × Nat)}, Maximal p n runs →
      runs.Pairwise fun a b => a.1 < b.1 := by
    intro runs all
    refine all.ascending.imp_of_mem fun {a b} first _ gap => ?_
    have some' := (all.each a first).2.nonempty
    omega
  have same : ∀ run, run ∈ runs ↔ run ∈ runs' := by
    rintro ⟨lo, hi⟩
    rw [one.mem_iff, other.mem_iff]
  have distinct : ∀ {runs : List (Nat × Nat)}, Maximal p n runs → runs.Nodup := by
    intro runs all
    exact (order all).imp fun {a b} below equal => by
      rw [equal] at below
      omega
  have perm : runs.Perm runs' :=
    (List.perm_ext_iff_of_nodup (distinct one) (distinct other)).mpr same
  exact perm.eq_of_pairwise (fun a b _ _ below above => by omega) (order one) (order other)

/-- Where a run ends below the bound, a run of the numbers without the property starts. -/
theorem next_gap {gaps : List (Nat × Nat)} (others : Maximal (fun k => !p k) n gaps) {lo hi : Nat}
    (run : IsRun p n lo hi) (below : hi < n) : ∃ stop, (hi, stop) ∈ gaps := by
  have some' := run.nonempty
  have bare : p hi = false := by
    rcases run.after with last | bare
    · omega
    · exact bare
  obtain ⟨gap, listed, low, high⟩ := others.complete hi (Nat.zero_le hi) below (by rw [bare]; rfl)
  have spec := (others.each gap listed).2
  have start : gap.1 = hi := by
    by_contra other
    have inside := spec.inside (hi - 1) (by omega) (by omega)
    rw [run.inside (hi - 1) (by omega) (by omega)] at inside
    cases inside
  exact ⟨gap.2, by rw [← start]; exact listed⟩

/-- Where a run starts above zero, a run of the numbers without the property ends. -/
theorem previous_gap {gaps : List (Nat × Nat)} (others : Maximal (fun k => !p k) n gaps)
    {lo hi : Nat} (run : IsRun p n lo hi) (above : 0 < lo) : ∃ start, (start, lo) ∈ gaps := by
  have some' := run.nonempty
  have bound := run.bounded
  have bare : p (lo - 1) = false := by
    rcases run.before with zero | bare
    · omega
    · exact bare
  obtain ⟨gap, listed, low, high⟩ :=
    others.complete (lo - 1) (Nat.zero_le _) (by omega) (by rw [bare]; rfl)
  have spec := (others.each gap listed).2
  have stop : gap.2 = lo := by
    by_contra other
    have inside := spec.inside lo (by omega) (by omega)
    rw [run.inside lo (by omega) (by omega)] at inside
    cases inside
  exact ⟨gap.1, by rw [← stop]; exact listed⟩

end Maximal

end Runs

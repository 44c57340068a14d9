import Mathlib

/-!
# Merging sorted intervals

A list of inclusive intervals, sorted by their starts, is merged in one pass: an interval that
touches the open one extends it, and any other closes it. The result covers what the list covers,
and between two of its intervals there is always a gap.
-/

namespace Intervals

/-- Merge intervals into one that is still open. -/
def merge (current : Nat × Nat) : List (Nat × Nat) → List (Nat × Nat)
  | [] => [current]
  | span :: rest =>
    if span.1 ≤ current.2 + 1 then
      merge (if current.2 < span.2 then (current.1, span.2) else current) rest
    else current :: merge span rest

/-- The intervals of a list cover a point. -/
def Covered (spans : List (Nat × Nat)) (point : Nat) : Prop :=
  ∃ span ∈ spans, span.1 ≤ point ∧ point ≤ span.2

/-- The ranges are the spans, merged. -/
structure Merged (spans ranges : List (Nat × Nat)) : Prop where
  /-- No range is empty. -/
  ordered : ∀ range ∈ ranges, range.1 ≤ range.2
  /-- The ranges are in order, with a gap after each. -/
  separate : ranges.Pairwise fun one other => one.2 + 1 < other.1
  /-- The ranges cover what the spans cover. -/
  covered : ∀ point, Covered ranges point ↔ Covered spans point
  /-- A range starts where a span starts. -/
  starts : ∀ range ∈ ranges, ∃ span ∈ spans, span.1 = range.1

theorem covered_cons (span : Nat × Nat) (spans : List (Nat × Nat)) (point : Nat) :
    Covered (span :: spans) point ↔ span.1 ≤ point ∧ point ≤ span.2 ∨ Covered spans point := by
  unfold Covered
  rw [List.exists_mem_cons_iff]

/-- Merging gives the merged ranges, of which none starts before the open one. -/
theorem merge_spec (rest : List (Nat × Nat)) : ∀ current : Nat × Nat, current.1 ≤ current.2 →
    (current :: rest).Pairwise (fun one other => one.1 ≤ other.1) →
      (∀ span ∈ rest, span.1 ≤ span.2) →
        Merged (current :: rest) (merge current rest) ∧
          ∀ range ∈ merge current rest, current.1 ≤ range.1 := by
  induction rest with
  | nil =>
    intro current nonempty sorted ordered
    unfold merge
    refine ⟨⟨?_, List.pairwise_singleton _ _, fun _ => Iff.rfl, ?_⟩, ?_⟩
    · intro range listed
      rw [List.mem_singleton.mp listed]
      exact nonempty
    · intro range listed
      exact ⟨range, listed, rfl⟩
    · intro range listed
      exact Nat.le_of_eq (congrArg Prod.fst (List.mem_singleton.mp listed)).symm
  | cons span rest inductionHypothesis =>
    intro current nonempty sorted ordered
    obtain ⟨after, others⟩ := List.pairwise_cons.mp sorted
    have low : current.1 ≤ span.1 := after span List.mem_cons_self
    have later : ∀ other ∈ rest, current.1 ≤ other.1 :=
      fun other listed => after other (List.mem_cons_of_mem _ listed)
    have full : span.1 ≤ span.2 := ordered span List.mem_cons_self
    have restOrdered : ∀ other ∈ rest, other.1 ≤ other.2 :=
      fun other listed => ordered other (List.mem_cons_of_mem _ listed)
    have restSorted := (List.pairwise_cons.mp others).2
    unfold merge
    by_cases touches : span.1 ≤ current.2 + 1
    · rw [if_pos touches]
      set wider : Nat × Nat := if current.2 < span.2 then (current.1, span.2) else current
        with widening
      have start : wider.1 = current.1 := by
        rw [widening]
        split <;> rfl
      have last : wider.2 = max current.2 span.2 := by
        rw [widening]
        split
        · dsimp only
          omega
        · omega
      have sortedWider : (wider :: rest).Pairwise fun one other => one.1 ≤ other.1 :=
        List.pairwise_cons.mpr ⟨fun other listed => start.trans_le (later other listed),
          restSorted⟩
      obtain ⟨merged, above⟩ := inductionHypothesis wider (by omega) sortedWider restOrdered
      refine ⟨⟨merged.ordered, merged.separate, fun point => ?_, fun range listed => ?_⟩, ?_⟩
      · rw [merged.covered, covered_cons, covered_cons, covered_cons, ← or_assoc]
        refine or_congr_left ?_
        rw [start, last]
        omega
      · obtain ⟨other, known, same⟩ := merged.starts range listed
        rcases List.mem_cons.mp known with here | there
        · exact ⟨current, List.mem_cons_self, by rw [← same, here, start]⟩
        · exact ⟨other, List.mem_cons_of_mem _ (List.mem_cons_of_mem _ there), same⟩
      · exact fun range listed => start.symm.trans_le (above range listed)
    · rw [if_neg touches]
      obtain ⟨merged, above⟩ := inductionHypothesis span full others restOrdered
      refine ⟨⟨?_, ?_, fun point => ?_, fun range listed => ?_⟩, ?_⟩
      · exact List.forall_mem_cons.mpr ⟨nonempty, merged.ordered⟩
      · refine List.pairwise_cons.mpr ⟨fun range listed => ?_, merged.separate⟩
        have beyond := above range listed
        omega
      · rw [covered_cons, merged.covered, covered_cons current]
      · rcases List.mem_cons.mp listed with here | there
        · exact ⟨current, List.mem_cons_self, by rw [here]⟩
        · obtain ⟨other, known, same⟩ := merged.starts range there
          exact ⟨other, List.mem_cons_of_mem _ known, same⟩
      · refine List.forall_mem_cons.mpr ⟨Nat.le_refl _, fun range listed => ?_⟩
        exact Nat.le_trans low (above range listed)

end Intervals

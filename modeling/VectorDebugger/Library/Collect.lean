import Mathlib.Data.List.Basic
import Mathlib.Tactic.Common

/-!
# Collecting up to a limit

A pass over a list that keeps what it looks for, and gives up as soon as it has kept too much.
-/

namespace Collect

variable {α : Type*} {hit : α → Bool} {limit : Nat}

/-- Add what is hit to what was kept, unless that makes more than the limit. -/
def collect (hit : α → Bool) (limit : Nat) : List α → List α → Option (List α)
  | kept, [] => some kept
  | kept, item :: items =>
    if hit item then
      let more := kept ++ [item]
      if more.length > limit then none else collect hit limit more items
    else collect hit limit kept items

/-- The pass keeps what is hit, in order, and gives up exactly when that is too much. -/
theorem collect_eq (items : List α) : ∀ {kept : List α}, kept.length ≤ limit →
    collect hit limit kept items =
      if (kept ++ items.filter hit).length > limit then none
      else some (kept ++ items.filter hit) := by
  induction items with
  | nil =>
    intro kept few
    rw [List.filter_nil, List.append_nil, if_neg (Nat.not_lt.mpr few)]
    rfl
  | cons item items inductionHypothesis =>
    intro kept few
    unfold collect
    by_cases found : hit item = true
    · rw [if_pos found, List.filter_cons_of_pos found]
      have appended : kept ++ item :: items.filter hit = kept ++ [item] ++ items.filter hit := by
        rw [List.append_assoc, List.singleton_append]
      dsimp only
      split
      · rename_i many
        have more : (kept ++ item :: items.filter hit).length > limit := by
          rw [appended, List.length_append]
          omega
        rw [if_pos more]
      · rename_i more
        rw [inductionHypothesis (Nat.not_lt.mp more), appended]
    · rw [if_neg found, List.filter_cons_of_neg found]
      exact inductionHypothesis few

/-- From the start. -/
theorem collect_nil (items : List α) : collect hit limit [] items =
    if (items.filter hit).length > limit then none else some (items.filter hit) :=
  collect_eq items (Nat.zero_le limit)

end Collect

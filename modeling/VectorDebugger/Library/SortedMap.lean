import Mathlib.Order.Defs.Unbundled
import Mathlib.Order.RelClasses
import Mathlib.Data.List.Basic
import Mathlib.Tactic.Common

/-!
# Sorted maps

A map kept as a list of entries in the strict order of their keys. Entering a key keeps the list
in order, and a list in order is what its own entries build, one after another.
-/

namespace VectorDebugger.SortedMap

variable {κ ν : Type} (before : κ → κ → Prop) [DecidableRel before] [DecidableEq κ]

/-- Enter a value under a key, in place of the value that the key has. -/
def insert (key : κ) (value : ν) : List (κ × ν) → List (κ × ν)
  | [] => [(key, value)]
  | entry :: rest =>
    if before key entry.1 then (key, value) :: entry :: rest
    else if key = entry.1 then (key, value) :: rest
    else entry :: insert key value rest

/-- The value under a key. -/
def lookup (key : κ) (entries : List (κ × ν)) : Option ν :=
  (entries.find? (·.1 = key)).map (·.2)

/-- The keys are in strict order. -/
def Sorted (entries : List (κ × ν)) : Prop :=
  entries.Pairwise fun one other => before one.1 other.1

variable {before}

theorem mem_insert {key : κ} {value : ν} {entries : List (κ × ν)} {entry : κ × ν}
    (listed : entry ∈ insert before key value entries) :
    entry = (key, value) ∨ entry ∈ entries := by
  induction entries with
  | nil => exact Or.inl (List.mem_singleton.mp listed)
  | cons first rest inductionHypothesis =>
    unfold insert at listed
    split at listed
    · rcases List.mem_cons.mp listed with new | old
      · exact Or.inl new
      · exact Or.inr old
    · split at listed
      · rcases List.mem_cons.mp listed with new | old
        · exact Or.inl new
        · exact Or.inr (List.mem_cons_of_mem _ old)
      · rcases List.mem_cons.mp listed with here | later
        · exact Or.inr (here ▸ List.mem_cons_self)
        · rcases inductionHypothesis later with new | old
          · exact Or.inl new
          · exact Or.inr (List.mem_cons_of_mem _ old)

theorem lookup_insert_self (key : κ) (value : ν) (entries : List (κ × ν)) :
    lookup key (insert before key value entries) = some value := by
  induction entries with
  | nil => simp [insert, lookup]
  | cons first rest inductionHypothesis =>
    unfold insert
    split
    · simp [lookup]
    · split
      · simp [lookup]
      · rename_i other
        have different : ¬first.1 = key := fun same => other same.symm
        simpa [lookup, different] using inductionHypothesis

theorem lookup_insert_of_ne {key other : κ} (different : other ≠ key) (value : ν)
    (entries : List (κ × ν)) :
    lookup other (insert before key value entries) = lookup other entries := by
  have apart : ¬key = other := fun same => different same.symm
  induction entries with
  | nil => simp [insert, lookup, apart]
  | cons first rest inductionHypothesis =>
    unfold insert
    split
    · simp [lookup, apart]
    · split
      · rename_i same
        simp [lookup, apart, ← same]
      · by_cases here : first.1 = other
        · simp [lookup, here]
        · simpa [lookup, here] using inductionHypothesis

theorem Sorted.insert [IsStrictTotalOrder κ before] {entries : List (κ × ν)}
    (sorted : Sorted before entries) (key : κ) (value : ν) :
    Sorted before (SortedMap.insert before key value entries) := by
  induction entries with
  | nil => exact List.pairwise_singleton _ _
  | cons first rest inductionHypothesis =>
    obtain ⟨least, ordered⟩ := List.pairwise_cons.mp sorted
    unfold SortedMap.insert
    split
    · rename_i ahead
      refine List.pairwise_cons.mpr ⟨fun other listed => ?_, sorted⟩
      rcases List.mem_cons.mp listed with here | later
      · rw [here]
        exact ahead
      · exact IsTrans.trans _ _ _ ahead (least other later)
    · rename_i behind
      split
      · rename_i same
        refine List.pairwise_cons.mpr ⟨fun other listed => ?_, ordered⟩
        rw [same]
        exact least other listed
      · rename_i other
        refine List.pairwise_cons.mpr ⟨fun entry listed => ?_, inductionHypothesis ordered⟩
        rcases mem_insert listed with new | old
        · rw [new]
          exact ((trichotomous_of before key first.1).resolve_left behind).resolve_left other
        · exact least entry old

omit [DecidableRel before] [DecidableEq κ] in
/-- Part of a sorted map is sorted. -/
theorem Sorted.filter {entries : List (κ × ν)} (sorted : Sorted before entries)
    (keep : κ × ν → Bool) : Sorted before (entries.filter keep) :=
  List.Pairwise.filter keep sorted

/-- A key after all others is entered last. -/
theorem insert_last [Std.Asymm before] {entries : List (κ × ν)} {key : κ}
    (last : ∀ entry ∈ entries, before entry.1 key) (value : ν) :
    insert before key value entries = entries ++ [(key, value)] := by
  induction entries with
  | nil => rfl
  | cons first rest inductionHypothesis =>
    have ahead := last first List.mem_cons_self
    have behind : ¬before key first.1 := fun after => Std.Asymm.asymm _ _ ahead after
    have other : key ≠ first.1 := fun same => by
      rw [same] at ahead
      exact Std.Asymm.asymm _ _ ahead ahead
    unfold insert
    rw [if_neg behind, if_neg other,
      inductionHypothesis fun entry listed => last entry (List.mem_cons_of_mem _ listed)]
    rfl

/-- The entries of a sorted map build it. -/
theorem foldl_insert [Std.Asymm before] {entries : List (κ × ν)} (sorted : Sorted before entries) :
    entries.foldl (fun map entry => insert before entry.1 entry.2 map) [] = entries := by
  have built : ∀ rest done : List (κ × ν), Sorted before (done ++ rest) →
      rest.foldl (fun map entry => insert before entry.1 entry.2 map) done = done ++ rest := by
    intro rest
    induction rest with
    | nil => exact fun done _ => (List.append_nil done).symm
    | cons first rest inductionHypothesis =>
      intro done ordered
      have last : ∀ entry ∈ done, before entry.1 first.1 := fun entry listed =>
        (List.pairwise_append.mp ordered).2.2 entry listed first List.mem_cons_self
      rw [List.foldl_cons, insert_last last, inductionHypothesis]
      · rw [List.append_assoc]
        rfl
      · rw [List.append_assoc]
        exact ordered
  exact built entries [] sorted

end VectorDebugger.SortedMap

import Mathlib.Data.List.Infix
import Mathlib.Tactic.Common

/-!
# Searches in a text

A search returns the text from the first occurrence on. Searches for one mark split the text
there. A word between two marks is found where the whole stretch between two neighbouring marks
is that word, so a text is passed one mark at a time.
-/

namespace TextSearch

variable {α : Type*} [DecidableEq α]

/-! ### Marks -/

/-- The text before the first mark, and the text after it. -/
def cut (mark : α) : List α → Option (List α × List α)
  | [] => none
  | c :: rest =>
    if c = mark then some ([], rest) else (cut mark rest).map fun found => (c :: found.1, found.2)

theorem cut_append {mark : α} {before : List α} (free : mark ∉ before) (after : List α) :
    cut mark (before ++ mark :: after) = some (before, after) := by
  induction before with
  | nil =>
    show (if mark = mark then _ else (cut mark after).map _) = _
    rw [if_pos rfl]
  | cons c before inductionHypothesis =>
    have other : c ≠ mark := fun same => free (same ▸ List.mem_cons_self)
    have rest := inductionHypothesis fun inside => free (List.mem_cons_of_mem c inside)
    show (if c = mark then _ else (cut mark (before ++ mark :: after)).map _) = _
    rw [if_neg other, rest]
    rfl

theorem cut_none {mark : α} {text : List α} (free : mark ∉ text) : cut mark text = none := by
  induction text with
  | nil => rfl
  | cons c text inductionHypothesis =>
    have other : c ≠ mark := fun same => free (same ▸ List.mem_cons_self)
    have rest := inductionHypothesis fun inside => free (List.mem_cons_of_mem c inside)
    show (if c = mark then _ else (cut mark text).map _) = _
    rw [if_neg other, rest]
    rfl

/-- A text that ends with a mark is split at its first one. -/
theorem cut_first (mark : α) (text after : List α) : ∃ rest,
    cut mark (text ++ mark :: after) = some (text.takeWhile (· ≠ mark), rest) := by
  induction text with
  | nil => exact ⟨after, cut_append List.not_mem_nil after⟩
  | cons c text inductionHypothesis =>
    obtain ⟨rest, found⟩ := inductionHypothesis
    by_cases same : c = mark
    · refine ⟨text ++ mark :: after, ?_⟩
      show (if c = mark then _ else (cut mark (text ++ mark :: after)).map _) = _
      rw [if_pos same, List.takeWhile_cons_of_neg (by simpa using same)]
      rfl
    · refine ⟨rest, ?_⟩
      show (if c = mark then _ else (cut mark (text ++ mark :: after)).map _) = _
      rw [if_neg same, found, List.takeWhile_cons_of_pos (by simpa using same)]
      rfl

/-- The stretches from an opening mark to the next closing mark, with a bound on their number. -/
def blocks (opening closing : α) : Nat → List α → List (List α)
  | 0, _ => []
  | fuel + 1, text =>
    match cut opening text with
    | none => []
    | some (_, inside) =>
      match cut closing inside with
      | none => []
      | some (body, after) => body :: blocks opening closing fuel after

theorem blocks_cons {opening closing : α} {before body : List α} (outside : opening ∉ before)
    (inside : closing ∉ body) (after : List α) (fuel : Nat) :
    blocks opening closing (fuel + 1) (before ++ opening :: (body ++ closing :: after)) =
      body :: blocks opening closing fuel after := by
  conv_lhs => unfold blocks
  rw [cut_append outside]
  dsimp only
  rw [cut_append inside]

theorem blocks_nil {opening : α} (closing : α) {text : List α} (outside : opening ∉ text)
    (fuel : Nat) : blocks opening closing fuel text = [] := by
  cases fuel with
  | zero => rfl
  | succ fuel =>
    unfold blocks
    rw [cut_none outside]

/-! ### Words -/

/-- The text from the first occurrence of a pattern on. -/
def seek (pattern : List α) : List α → Option (List α)
  | [] => none
  | c :: rest => if pattern.isPrefixOf (c :: rest) then some (c :: rest) else seek pattern rest

/-- A word between two marks. -/
def word (mark : α) (key : List α) : List α := mark :: (key ++ [mark])

/-- What does not start with the mark is passed. -/
theorem seek_before {mark : α} {before : List α} (free : mark ∉ before) (key rest : List α) :
    seek (word mark key) (before ++ rest) = seek (word mark key) rest := by
  induction before with
  | nil => rfl
  | cons c before inductionHypothesis =>
    have other : mark ≠ c := fun same => free (same ▸ List.mem_cons_self)
    have later := inductionHypothesis fun inside => free (List.mem_cons_of_mem c inside)
    have differs : (word mark key).isPrefixOf (c :: (before ++ rest)) = false := by
      unfold word List.isPrefixOf
      rw [beq_false_of_ne other]
      rfl
    show (if (word mark key).isPrefixOf (c :: (before ++ rest)) then _ else _) = _
    rw [differs]
    exact later

/-- A mark that the key does not follow is passed. -/
theorem seek_mark {mark : α} {key rest : List α} (differs : ¬ key ++ [mark] <+: rest) :
    seek (word mark key) (mark :: rest) = seek (word mark key) rest := by
  have other : ¬ (word mark key).isPrefixOf (mark :: rest) = true := by
    rw [List.isPrefixOf_iff_prefix]
    exact fun same => differs (List.cons_prefix_cons.mp same).2
  show (if (word mark key).isPrefixOf (mark :: rest) then _ else _) = _
  rw [if_neg other]

/-- The word is found where it stands. -/
theorem seek_word (mark : α) (key after : List α) :
    seek (word mark key) (word mark key ++ after) = some (word mark key ++ after) := by
  have here : (word mark key).isPrefixOf (word mark key ++ after) = true :=
    List.isPrefixOf_iff_prefix.mpr (List.prefix_append _ _)
  show (if (word mark key).isPrefixOf (word mark key ++ after) then _ else _) = _
  rw [if_pos here]
  rfl

/-- In front of a place where the pattern is found, an earlier one may be found; what lies between
is of the text in front. -/
theorem seek_within {pattern found : List α} (here : seek pattern found = some found)
    (before : List α) : ∃ front, front <:+ before ∧
      seek pattern (before ++ found) = some (front ++ found) := by
  induction before with
  | nil => exact ⟨[], List.suffix_refl [], here⟩
  | cons c before inductionHypothesis =>
    by_cases first : pattern.isPrefixOf (c :: (before ++ found)) = true
    · refine ⟨c :: before, List.suffix_refl _, ?_⟩
      show (if pattern.isPrefixOf (c :: (before ++ found)) then _ else _) = _
      rw [if_pos first]
      rfl
    · obtain ⟨front, suffix, later⟩ := inductionHypothesis
      refine ⟨front, suffix.trans (List.suffix_cons c before), ?_⟩
      show (if pattern.isPrefixOf (c :: (before ++ found)) then _ else _) = _
      rw [if_neg first]
      exact later

omit [DecidableEq α] in
/-- Between two marks stands one word. -/
theorem prefix_word {mark : α} {key token after : List α} (keyFree : mark ∉ key)
    (tokenFree : mark ∉ token) (same : key ++ [mark] <+: token ++ mark :: after) :
    key = token := by
  induction key generalizing token with
  | nil =>
    cases token with
    | nil => rfl
    | cons c token =>
      have first := (List.cons_prefix_cons.mp same).1
      exact absurd (first ▸ List.mem_cons_self) tokenFree
  | cons c key inductionHypothesis =>
    cases token with
    | nil =>
      have first := (List.cons_prefix_cons.mp same).1
      exact absurd (first ▸ List.mem_cons_self) keyFree
    | cons d token =>
      obtain ⟨first, rest⟩ := List.cons_prefix_cons.mp same
      rw [first, inductionHypothesis (fun inside => keyFree (List.mem_cons_of_mem _ inside))
        (fun inside => tokenFree (List.mem_cons_of_mem _ inside)) rest]

/-- A word other than the key is passed up to its second mark. -/
theorem seek_token {mark : α} {key token : List α} (keyFree : mark ∉ key)
    (tokenFree : mark ∉ token) (other : token ≠ key) (after : List α) :
    seek (word mark key) (mark :: (token ++ mark :: after)) =
      seek (word mark key) (mark :: after) := by
  rw [seek_mark fun same => other (prefix_word keyFree tokenFree same).symm,
    seek_before tokenFree]

end TextSearch

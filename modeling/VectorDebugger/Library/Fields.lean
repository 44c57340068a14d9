import Mathlib.Data.List.DropRight

/-!
# Fields of a line

A text is split at a mark, and blanks around a piece do not count. The pieces that are not blank are
the fields; blanks around the whole text do not change them.
-/

namespace Fields

variable {α : Type*} [DecidableEq α]

/-- The pieces between marks. A mark at the end closes the last piece. -/
def split (mark : α) : List α → List (List α)
  | [] => []
  | c :: rest =>
    if c = mark then [] :: split mark rest
    else
      match split mark rest with
      | [] => [[c]]
      | piece :: pieces => (c :: piece) :: pieces

omit [DecidableEq α] in
/-- A text without the blanks around it. -/
def trim (blank : α → Bool) (s : List α) : List α := (s.dropWhile blank).rdropWhile blank

/-- The pieces that are not blank, without the blanks around them. -/
def fields (mark : α) (blank : α → Bool) (s : List α) : List (List α) :=
  ((split mark s).map (trim blank)).filter (· ≠ [])

section Trim

omit [DecidableEq α]

variable {blank : α → Bool}

theorem trim_cons {b : α} (white : blank b = true) (s : List α) :
    trim blank (b :: s) = trim blank s := by
  unfold trim
  rw [List.dropWhile_cons_of_pos white]

theorem trim_concat {b : α} (white : blank b = true) (s : List α) :
    trim blank (s ++ [b]) = trim blank s := by
  unfold trim
  rw [List.dropWhile_append]
  split
  case isTrue none =>
    rw [List.isEmpty_iff.mp none, List.dropWhile_cons_of_pos white]
    rfl
  case isFalse => exact List.rdropWhile_concat_pos _ _ _ white

/-- What begins and ends with no blank is left as it is. -/
theorem trim_eq_self {s : List α} (first : ∀ c ∈ s.head?, blank c = false)
    (last : ∀ c ∈ s.getLast?, blank c = false) : trim blank s = s := by
  have front : s.dropWhile blank = s := by
    cases s with
    | nil => rfl
    | cons c s => exact List.dropWhile_cons_of_neg (by rw [first c rfl]; exact Bool.false_ne_true)
  unfold trim
  rw [front]
  refine List.rdropWhile_eq_self_iff.mpr fun some' => ?_
  rw [last _ (List.getLast?_eq_getLast_of_ne_nil some')]
  exact Bool.false_ne_true

/-- Behind a text that ends with no blank, only the blanks at the end go. -/
theorem trim_append {front : List α} (some' : front ≠ [])
    (first : ∀ c ∈ front.head?, blank c = false) (last : ∀ c ∈ front.getLast?, blank c = false)
    (rest : List α) : trim blank (front ++ rest) = front ++ rest.rdropWhile blank := by
  induction rest using List.reverseRecOn with
  | nil =>
    rw [List.append_nil, trim_eq_self first last]
    exact (List.append_nil _).symm
  | append_singleton rest b inductionHypothesis =>
    rw [← List.append_assoc]
    cases white : blank b with
    | true => rw [trim_concat white, inductionHypothesis, List.rdropWhile_concat_pos _ _ _ white]
    | false =>
      have black : ¬ blank b = true := by
        rw [white]
        exact Bool.false_ne_true
      rw [List.rdropWhile_concat_neg _ _ _ black, ← List.append_assoc]
      refine trim_eq_self (fun c mem => ?_) fun c mem => ?_
      · refine first c ?_
        rw [List.append_assoc, List.head?_append_of_ne_nil _ some'] at mem
        exact mem
      · rw [List.getLast?_concat, Option.mem_some_iff] at mem
        rw [← mem, white]

end Trim

section Split

variable {mark : α}

theorem split_mark (rest : List α) : split mark (mark :: rest) = [] :: split mark rest :=
  if_pos rfl

theorem split_other {c : α} (other : c ≠ mark) (rest : List α) :
    split mark (c :: rest) =
      match split mark rest with
      | [] => [[c]]
      | piece :: pieces => (c :: piece) :: pieces :=
  if_neg other

theorem split_append {piece : List α} (free : mark ∉ piece) (rest : List α) :
    split mark (piece ++ mark :: rest) = piece :: split mark rest := by
  induction piece with
  | nil => exact split_mark rest
  | cons c piece inductionHypothesis =>
    have other : c ≠ mark := fun same => free (same ▸ List.mem_cons_self)
    have later := inductionHypothesis fun inside => free (List.mem_cons_of_mem c inside)
    rw [List.cons_append, split_other other, later]

theorem split_free {piece : List α} (free : mark ∉ piece) (some' : piece ≠ []) :
    split mark piece = [piece] := by
  induction piece with
  | nil => exact absurd rfl some'
  | cons c piece inductionHypothesis =>
    have other : c ≠ mark := fun same => free (same ▸ List.mem_cons_self)
    rw [split_other other]
    cases piece with
    | nil => rfl
    | cons d piece =>
      rw [inductionHypothesis (fun inside => free (List.mem_cons_of_mem c inside))
        (List.cons_ne_nil _ _)]

/-- One more value at the end is a piece of its own or belongs to the last one. -/
theorem split_concat {b : α} (other : b ≠ mark) (s : List α) :
    split mark (s ++ [b]) = split mark s ++ [[b]] ∨
      ∃ front piece, split mark s = front ++ [piece] ∧
        split mark (s ++ [b]) = front ++ [piece ++ [b]] := by
  induction s with
  | nil => exact Or.inl (if_neg other)
  | cons c s inductionHypothesis =>
    rw [List.cons_append]
    by_cases marked : c = mark
    · rw [marked, split_mark, split_mark]
      rcases inductionHypothesis with apart | ⟨front, piece, here, there⟩
      · exact Or.inl (congrArg ([] :: ·) apart)
      · exact Or.inr ⟨[] :: front, piece, congrArg ([] :: ·) here, congrArg ([] :: ·) there⟩
    · rw [split_other marked, split_other marked]
      rcases inductionHypothesis with apart | ⟨front, piece, here, there⟩
      · rw [apart]
        cases split mark s with
        | nil => exact Or.inr ⟨[], [c], rfl, rfl⟩
        | cons first pieces => exact Or.inl rfl
      · rw [here, there]
        cases front with
        | nil => exact Or.inr ⟨[], c :: piece, rfl, rfl⟩
        | cons first front => exact Or.inr ⟨(c :: first) :: front, piece, rfl, rfl⟩

end Split

section Fields

variable {mark : α} {blank : α → Bool}

theorem fields_cons {b : α} (white : blank b = true) (other : b ≠ mark) (s : List α) :
    fields mark blank (b :: s) = fields mark blank s := by
  unfold fields
  rw [split_other other]
  cases split mark s with
  | nil =>
    rw [List.map_cons, trim_cons white]
    rfl
  | cons piece pieces =>
    rw [List.map_cons, List.map_cons, trim_cons white]

theorem fields_concat {b : α} (white : blank b = true) (other : b ≠ mark) (s : List α) :
    fields mark blank (s ++ [b]) = fields mark blank s := by
  unfold fields
  rcases split_concat other s with apart | ⟨front, piece, here, there⟩
  · rw [apart, List.map_append, List.map_singleton, trim_cons white, List.filter_append]
    exact List.append_nil _
  · rw [here, there, List.map_append, List.map_append, List.map_singleton, List.map_singleton,
      trim_concat white]

/-- Blanks at the end do not change the fields. -/
theorem fields_rdropWhile (marked : blank mark = false) (s : List α) :
    fields mark blank (s.rdropWhile blank) = fields mark blank s := by
  induction s using List.reverseRecOn with
  | nil => rfl
  | append_singleton s b inductionHypothesis =>
    cases white : blank b with
    | true =>
      have other : b ≠ mark := fun same => by
        rw [same, marked] at white
        cases white
      rw [List.rdropWhile_concat_pos _ _ _ white, fields_concat white other, inductionHypothesis]
    | false =>
      rw [List.rdropWhile_concat_neg _ _ _ (by rw [white]; exact Bool.false_ne_true)]

/-- Blanks around a text do not change its fields. -/
theorem fields_trim (marked : blank mark = false) (s : List α) :
    fields mark blank (trim blank s) = fields mark blank s := by
  unfold trim
  rw [fields_rdropWhile marked]
  induction s with
  | nil => rfl
  | cons b s inductionHypothesis =>
    cases white : blank b with
    | true =>
      have other : b ≠ mark := fun same => by
        rw [same, marked] at white
        cases white
      rw [List.dropWhile_cons_of_pos white, fields_cons white other, inductionHypothesis]
    | false => rw [List.dropWhile_cons_of_neg (by rw [white]; exact Bool.false_ne_true)]

/-- The fields of pieces behind one another. -/
theorem fields_append {piece : List α} (free : mark ∉ piece) (rest : List α) :
    fields mark blank (piece ++ mark :: rest) =
      [trim blank piece].filter (· ≠ []) ++ fields mark blank rest := by
  unfold fields
  rw [split_append free, List.map_cons, ← List.singleton_append, List.filter_append]

theorem fields_free {piece : List α} (free : mark ∉ piece) :
    fields mark blank piece = [trim blank piece].filter (· ≠ []) := by
  cases piece with
  | nil => rfl
  | cons c piece =>
    unfold fields
    rw [split_free free (List.cons_ne_nil _ _), List.map_singleton]

end Fields

end Fields

import VectorDebugger.Debugger.RdbText

/-!
# What normalization keeps

The content of a text is what is neither a space nor a tab nor part of a line break, in order.
Breaks never overlap, so a text can be read from its start, one byte or one break at a time; in
this reading each pass of `normalizeRdbText` removes and inserts spaces only.
-/

namespace VectorDebugger

namespace RdbText

/-- A line break covers the position. -/
def InBreak (s : Text) (i : Nat) : Prop :=
  ∃ token ∈ breakTokens, ∃ k ∈ List.range (i + 1), i < k + token.length ∧ token <+: s.drop k

instance (s : Text) (i : Nat) : Decidable (InBreak s i) :=
  inferInstanceAs (Decidable (∃ token ∈ breakTokens, ∃ k ∈ List.range (i + 1), _ ∧ _))

/-- The byte at the position is neither a space nor a tab nor part of a line break. -/
def Solid (s : Text) (i : Nat) : Prop := isHSpace (s.getD i 0) = false ∧ ¬ InBreak s i

instance (s : Text) (i : Nat) : Decidable (Solid s i) :=
  inferInstanceAs (Decidable (_ ∧ _))

/-- The bytes of a text that are neither spaces nor tabs nor part of a line break. -/
def content (s : Text) : Text :=
  ((List.range s.length).filter fun i => decide (Solid s i)).map fun i => s.getD i 0

example : content (ascii "a\t b\r\n c") = ascii "abc" := by decide

/-! ### Breaks do not overlap -/

/-- The first byte of a break is no later byte of one. -/
theorem token_head {token other : Text} (known : token ∈ breakTokens)
    (second : other ∈ breakTokens) {b : Byte} (first : other.head? = some b) :
    b ∉ token.tail := by
  have heads : ∀ token ∈ breakTokens, ∀ other ∈ breakTokens, ∀ b ∈ other.take 1,
      b ∉ token.tail := by
    decide
  obtain ⟨tail, rfl⟩ := List.head?_eq_some_iff.mp first
  exact heads token known _ second b List.mem_cons_self

/-- One break is no longer or shorter version of another. -/
theorem token_unique {token other : Text} (known : token ∈ breakTokens)
    (second : other ∈ breakTokens) (starts : other <+: token) : other = token := by
  revert other
  revert token
  decide

theorem token_ne_nil {token : Text} (known : token ∈ breakTokens) : token ≠ [] := by
  intro empty
  rw [empty] at known
  exact absurd known (by decide)

/-- What a break covers after a break is what it covers in the text after that. -/
theorem inBreak_append {token : Text} (known : token ∈ breakTokens) (after : Text) (i : Nat) :
    InBreak (token ++ after) (token.length + i) ↔ InBreak after i := by
  constructor
  · intro covered
    obtain ⟨other, second, k, low, inside, starts⟩ := covered
    by_cases early : k < token.length
    · exfalso
      cases k with
      | zero =>
        rw [List.drop_zero] at starts
        have same : other = token := by
          rcases List.prefix_or_prefix_of_prefix starts (List.prefix_append token after) with
            short | long
          · exact token_unique known second short
          · exact (token_unique second known long).symm
        rw [same] at inside
        omega
      | succ k =>
        cases other with
        | nil => exact token_ne_nil second rfl
        | cons b other =>
          have inside' : k < token.tail.length := by
            rw [List.length_tail]
            omega
          rw [List.drop_append_of_le_length (by omega)] at starts
          cases token with
          | nil => exact token_ne_nil known rfl
          | cons c token =>
            have split := List.drop_eq_getElem_cons inside'
            simp only [List.tail_cons] at split inside'
            rw [List.drop_succ_cons, split, List.cons_append, List.cons_prefix_cons] at starts
            have later : b ∈ (c :: token).tail := starts.1 ▸ List.getElem_mem inside'
            exact token_head known second (List.head?_cons ..) later
    · have offset : k = token.length + (k - token.length) := by omega
      rw [offset, List.drop_length_add_append] at starts
      rw [List.mem_range] at low
      exact ⟨other, second, k - token.length, List.mem_range.mpr (by omega), by omega, starts⟩
  · intro covered
    obtain ⟨other, second, k, low, inside, starts⟩ := covered
    rw [List.mem_range] at low
    refine ⟨other, second, token.length + k, List.mem_range.mpr (by omega), by omega, ?_⟩
    rw [List.drop_length_add_append]
    exact starts

/-- A break covers its own bytes. -/
theorem inBreak_token {token : Text} (known : token ∈ breakTokens) (after : Text) {i : Nat}
    (inside : i < token.length) : InBreak (token ++ after) i := by
  refine ⟨token, known, 0, List.mem_range.mpr (by omega), by omega, ?_⟩
  exact List.prefix_append token after

/-- A byte that starts no break takes no part in what covers the bytes after it. -/
theorem inBreak_cons {c : Byte} {rest : Text} (silent : breakLen (c :: rest) = 0) (i : Nat) :
    InBreak (c :: rest) (i + 1) ↔ InBreak rest i := by
  constructor
  · intro covered
    obtain ⟨token, known, k, low, inside, starts⟩ := covered
    rw [List.mem_range] at low
    cases k with
    | zero =>
      have found : 0 < breakLen (c :: rest) := (breakLen_pos_iff _).mpr ⟨token, known, starts⟩
      omega
    | succ k => exact ⟨token, known, k, List.mem_range.mpr (by omega), by omega, starts⟩
  · intro covered
    obtain ⟨token, known, k, low, inside, starts⟩ := covered
    rw [List.mem_range] at low
    exact ⟨token, known, k + 1, List.mem_range.mpr (by omega), by omega, starts⟩

theorem not_inBreak_zero {s : Text} (silent : breakLen s = 0) : ¬ InBreak s 0 := by
  intro covered
  obtain ⟨token, known, k, low, inside, starts⟩ := covered
  have zero : k = 0 := by simpa using low
  rw [zero, List.drop_zero] at starts
  have found := (breakLen_pos_iff _).mpr ⟨token, known, starts⟩
  omega

/-! ### The content, read from the start -/

@[simp] theorem content_nil : content [] = [] := rfl

/-- A byte that starts no break is content, or a space or a tab. -/
theorem content_cons {c : Byte} {rest : Text} (silent : breakLen (c :: rest) = 0) :
    content (c :: rest) = if isHSpace c then content rest else c :: content rest := by
  have shift (i : Nat) : Solid (c :: rest) (i + 1) ↔ Solid rest i := by
    unfold Solid
    rw [List.getD_cons_succ, inBreak_cons silent]
  have later : ((List.range rest.length).map Nat.succ).filter
      (fun i => decide (Solid (c :: rest) i)) =
        ((List.range rest.length).filter fun i => decide (Solid rest i)).map Nat.succ := by
    rw [List.filter_map]
    congr 1
    apply List.filter_congr
    intro i _
    exact decide_eq_decide.mpr (shift i)
  have first : decide (Solid (c :: rest) 0) = !isHSpace c := by
    have bare := not_inBreak_zero silent
    cases space : isHSpace c <;> simp [Solid, space, bare]
  unfold content
  rw [List.length_cons, List.range_succ_eq_map, List.filter_cons, later, first]
  cases space : isHSpace c <;> simp [Function.comp_def]

/-- A break is no content. -/
theorem content_token (token : Text) (known : token ∈ breakTokens) (after : Text) :
    content (token ++ after) = content after := by
  have byte (i : Nat) : (token ++ after).getD (token.length + i) 0 = after.getD i 0 := by
    rw [List.getD_append_right _ _ _ _ (Nat.le_add_right ..), Nat.add_sub_cancel_left]
  have shift (i : Nat) : Solid (token ++ after) (token.length + i) ↔ Solid after i := by
    unfold Solid
    rw [byte, inBreak_append known]
  have front : (List.range token.length).filter
      (fun i => decide (Solid (token ++ after) i)) = [] := by
    rw [List.filter_eq_nil_iff]
    intro i inside
    have covered := inBreak_token known after (List.mem_range.mp inside)
    simp [Solid, covered]
  have back : ((List.range after.length).map (token.length + ·)).filter
      (fun i => decide (Solid (token ++ after) i)) =
        ((List.range after.length).filter fun i => decide (Solid after i)).map
          (token.length + ·) := by
    rw [List.filter_map]
    congr 1
    apply List.filter_congr
    intro i _
    exact decide_eq_decide.mpr (shift i)
  unfold content
  rw [List.length_append, List.range_add, List.filter_append, front, back, List.nil_append,
    List.map_map]
  apply List.map_congr_left
  intro i _
  exact byte i

theorem eq_cons_of_head? {s : Text} {c : Byte} (front : s.head? = some c) : s = c :: s.tail := by
  cases s with
  | nil => simp at front
  | cons d rest => simpa using front

/-- Nor is what `breakLen` measures. -/
theorem content_drop_breakLen (s : Text) : content (s.drop (breakLen s)) = content s := by
  cases s with
  | nil => rfl
  | cons c rest =>
    have feed (after : Text) : content (0x0a :: after) = content after :=
      content_token [0x0a] (by decide) after
    have back (after : Text) : content (0x0d :: after) = content after :=
      content_token [0x0d] (by decide) after
    unfold breakLen
    dsimp only
    split_ifs with cr lf lf' nel sep
    · have whole := eq_cons_of_head? lf
      rw [cr, whole, back, feed]
      rfl
    · rw [cr, back]
      rfl
    · rw [lf', feed]
      rfl
    · have whole := eq_cons_of_head? nel.2
      have none' := content_token [0xc2, 0x85] (by decide) rest.tail
      rw [nel.1, whole]
      exact none'.symm
    · have whole := eq_cons_of_head? sep.2.1
      rw [sep.1, whole]
      rcases sep.2.2 with line | paragraph
      · have whole' := eq_cons_of_head? line
        have none' := content_token [0xe2, 0x80, 0xa8] (by decide) rest.tail.tail
        rw [whole']
        exact none'.symm
      · have whole' := eq_cons_of_head? paragraph
        have none' := content_token [0xe2, 0x80, 0xa9] (by decide) rest.tail.tail
        rw [whole']
        exact none'.symm
    · rfl

/-- A space or a tab starts no break. -/
theorem breakLen_space {c : Byte} (space : isHSpace c = true) (rest : Text) :
    breakLen (c :: rest) = 0 := by
  have which : c = 0x20 ∨ c = 0x09 := by simpa [isHSpace] using space
  rcases which with rfl | rfl <;> simp [breakLen]

theorem content_dropWhile (s : Text) : content (s.dropWhile isHSpace) = content s := by
  induction s with
  | nil => rfl
  | cons c rest inductionHypothesis =>
    by_cases space : isHSpace c = true
    · rw [List.dropWhile_cons_of_pos space, inductionHypothesis,
        content_cons (breakLen_space space rest), if_pos space]
    · rw [List.dropWhile_cons_of_neg space]

/-- What is skipped after a break is no content. -/
theorem content_absorb (s : Text) : content (absorb s) = content s := by
  fun_induction absorb s with
  | case1 s found inductionHypothesis =>
    rw [inductionHypothesis, content_drop_breakLen, content_dropWhile]
  | case2 s found => exact content_dropWhile s

/-- Neither a space nor a tab. -/
def isVisible (c : Byte) : Bool := !isHSpace c

/-- Text without breaks has as content what is neither space nor tab. -/
theorem content_of_noBreak (s : Text) (noBreak : ∀ token ∈ breakTokens, ¬ token <:+: s) :
    content s = s.filter isVisible := by
  induction s with
  | nil => rfl
  | cons c rest inductionHypothesis =>
    have silent : breakLen (c :: rest) = 0 := by
      by_contra found
      obtain ⟨token, known, starts⟩ := (breakLen_pos_iff _).mp (Nat.pos_of_ne_zero found)
      exact noBreak token known starts.isInfix
    have later := inductionHypothesis fun token known inside =>
      noBreak token known (inside.trans (List.suffix_cons c rest).isInfix)
    rw [content_cons silent, later]
    cases space : isHSpace c <;> simp [isVisible, space]

/-! ### The passes keep the content -/

/-- What pass 1 may not lose: neither a space nor a tab nor its own mark. -/
def isInk (c : Byte) : Bool := !isHSpace c && c ≠ 0x0a

/-- Dropping spaces and tabs loses no ink. -/
theorem filter_dropWhile {p q : Byte → Bool} (apart : ∀ c, q c = true → p c = false) (s : Text) :
    (s.dropWhile q).filter p = s.filter p := by
  induction s with
  | nil => rfl
  | cons c rest inductionHypothesis =>
    by_cases dropped : q c = true
    · rw [List.dropWhile_cons_of_pos dropped, inductionHypothesis,
        List.filter_cons_of_neg (by simp [apart c dropped])]
    · rw [List.dropWhile_cons_of_neg dropped]

theorem isInk_of_space {c : Byte} (space : isHSpace c = true) : isInk c = false := by
  unfold isInk
  rw [space]
  rfl

theorem isInk_of_solid {c : Byte} (solid : isHSpace c = false) (other : c ≠ 0x0a) :
    isInk c = true := by
  unfold isInk
  rw [solid, decide_eq_true other]
  rfl

theorem filter_markBreaks (mark s : Text) :
    (markBreaks mark s).filter isInk = (content s).reverse ++ mark.filter isInk := by
  fun_induction markBreaks mark s with
  | case1 mark => rfl
  | case2 mark c rest found inductionHypothesis =>
    have bare : ¬ isInk 0x0a = true := by decide
    have kept : (mark.dropWhile isHSpace).filter isInk = mark.filter isInk :=
      filter_dropWhile (fun _ space => isInk_of_space space) mark
    rw [inductionHypothesis, content_absorb, content_drop_breakLen,
      List.filter_cons_of_neg bare, kept]
  | case3 mark c rest found inductionHypothesis =>
    have silent : breakLen (c :: rest) = 0 := by omega
    have other : c ≠ 0x0a := by
      rintro rfl
      exact found ((breakLen_pos_iff _).mpr ⟨[0x0a], by decide, by simp⟩)
    rw [inductionHypothesis, content_cons silent]
    cases space : isHSpace c with
    | true =>
      rw [if_pos rfl,
        List.filter_cons_of_neg (by rw [isInk_of_space space]; exact Bool.false_ne_true)]
    | false =>
      rw [if_neg Bool.false_ne_true, List.filter_cons_of_pos (isInk_of_solid space other),
        List.reverse_cons, List.append_assoc]
      rfl

theorem filter_collapse (mark : Text) :
    (collapse mark).filter isVisible = mark.filter isInk := by
  have blank : ¬ isVisible 0x20 = true := by decide
  have bare : ¬ isInk 0x20 = true := by decide
  have feedless : ¬ isInk 0x0a = true := by decide
  fun_induction collapse mark with
  | case1 => rfl
  | case2 rest inductionHypothesis =>
    rw [List.filter_cons_of_neg blank, List.filter_cons_of_neg feedless, inductionHypothesis]
  | case3 rest _ inductionHypothesis =>
    have kept : (rest.dropWhile (· = 0x20)).filter isInk = rest.filter isInk := by
      refine filter_dropWhile (fun c space => ?_) rest
      rw [of_decide_eq_true space]
      exact isInk_of_space (by decide)
    rw [List.filter_cons_of_neg blank, List.filter_cons_of_neg bare, inductionHypothesis, kept]
  | case4 c rest feed space inductionHypothesis =>
    cases tab : isHSpace c with
    | true =>
      have hidden : ¬ isVisible c = true := by simp [isVisible, tab]
      rw [List.filter_cons_of_neg hidden, inductionHypothesis,
        List.filter_cons_of_neg (by rw [isInk_of_space tab]; exact Bool.false_ne_true)]
    | false =>
      have visible : isVisible c = true := by simp [isVisible, tab]
      rw [List.filter_cons_of_pos visible, inductionHypothesis,
        List.filter_cons_of_pos (isInk_of_solid tab feed)]

theorem filter_trim (out : Text) : (trim out).filter isVisible = out.filter isVisible := by
  have lost : ∀ c : Byte, decide (c = 0x20) = true → isVisible c = false := by
    intro c space
    rw [of_decide_eq_true space]
    decide
  unfold trim List.rdropWhile
  rw [List.filter_reverse, filter_dropWhile lost, List.filter_reverse, List.reverse_reverse,
    filter_dropWhile lost]

/-- Normalizing keeps the content. -/
theorem content_normalizeRdbText (s : Text) : content (normalizeRdbText s) = content s := by
  rw [content_of_noBreak _ (clean_normalizeRdbText s).noBreak]
  unfold normalizeRdbText
  split
  · rename_i empty
    rw [empty]
    rfl
  · rw [filter_trim, filter_collapse, List.filter_reverse, filter_markBreaks, List.filter_nil,
      List.append_nil, List.reverse_reverse]

/-- Normalizing leaves no break, changes nothing the second time and keeps the content. -/
theorem normalizeRdbText_spec (s : Text) :
    (∀ token ∈ breakTokens, ¬ token <:+: normalizeRdbText s) ∧
      normalizeRdbText (normalizeRdbText s) = normalizeRdbText s ∧
        content (normalizeRdbText s) = content s :=
  ⟨(clean_normalizeRdbText s).noBreak, normalizeRdbText_idempotent s, content_normalizeRdbText s⟩

end RdbText

end VectorDebugger

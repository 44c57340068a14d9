import Mathlib.Data.List.Chain
import Mathlib.Data.List.DropRight
import Mathlib.Data.List.Infix
import VectorDebugger.Machine.Memory

/-!
# Text normalization

`normalizeRdbText` removes line breaks from free-form text before it is stored. A break,
with any spaces and tabs next to it, becomes one space; a run of spaces becomes one; the
result is trimmed. Strings are sequences of bytes, as the source treats them.

The result holds no line break and no two adjacent spaces, and text without either is a fixed
point; so the function is idempotent.
-/

namespace VectorDebugger

/-- `std::string`. -/
abbrev Text := List Byte

/-- The bytes of an ASCII literal. -/
def ascii (s : String) : Text := s.toList.map fun c => BitVec.ofNat 8 c.toNat

/-- What holds of all bytes of a text is decided along the text, not along the values of a byte. -/
instance (priority := 1100) decidableForallMem (s : Text) (p : Byte → Prop) [DecidablePred p] :
    Decidable (∀ c ∈ s, p c) :=
  List.decidableBAll _ s

instance (priority := 1100) decidableExistsMem (s : Text) (p : Byte → Prop) [DecidablePred p] :
    Decidable (∃ c ∈ s, p c) :=
  List.decidableBEx _ s

namespace RdbText

/-- `breakLen`, for the text from the position on. -/
def breakLen : Text → Nat
  | [] => 0
  | c :: rest =>
    if c = 0x0d then if rest.head? = some 0x0a then 2 else 1
    else if c = 0x0a then 1
    else if c = 0xc2 ∧ rest.head? = some 0x85 then 2
    else if c = 0xe2 ∧ rest.head? = some 0x80 ∧
        (rest.tail.head? = some 0xa8 ∨ rest.tail.head? = some 0xa9) then 3
    else 0

/-- A break is in some text. -/
theorem length_pos_of_breakLen {s : Text} (found : 0 < breakLen s) : 0 < s.length := by
  cases s with
  | nil => exact absurd found (by decide)
  | cons => exact Nat.succ_pos _

/-- `isHSpace`. -/
def isHSpace (c : Byte) : Bool := c = 0x20 || c = 0x09

/-- The text after a break: spaces and tabs are skipped, and so are further breaks. -/
def absorb (s : Text) : Text :=
  if 0 < breakLen (s.dropWhile isHSpace) then
    absorb ((s.dropWhile isHSpace).drop (breakLen (s.dropWhile isHSpace)))
  else s.dropWhile isHSpace
termination_by s.length
decreasing_by
  rename_i found
  have shorter : (s.dropWhile isHSpace).length ≤ s.length := List.length_dropWhile_le ..
  have room := length_pos_of_breakLen found
  rw [List.length_drop]
  omega

/-- What is left after a break is not longer than what was there. -/
theorem absorb_length (s : Text) : (absorb s).length ≤ s.length := by
  fun_induction absorb s with
  | case1 s found inductionHypothesis =>
    have shorter : (s.dropWhile isHSpace).length ≤ s.length := List.length_dropWhile_le ..
    rw [List.length_drop] at inductionHypothesis
    omega
  | case2 s found => exact List.length_dropWhile_le ..

/-- Pass 1: every run of breaks, with the spaces and tabs next to it, becomes one `\n`. `mark`
is kept with its last byte first. -/
def markBreaks (mark : Text) (s : Text) : Text :=
  match s with
  | [] => mark
  | c :: rest =>
    if 0 < breakLen (c :: rest) then
      markBreaks (0x0a :: mark.dropWhile isHSpace) (absorb ((c :: rest).drop (breakLen (c :: rest))))
    else markBreaks (c :: mark) rest
termination_by s.length
decreasing_by
  · have shorter := absorb_length ((c :: rest).drop (breakLen (c :: rest)))
    rw [List.length_drop] at shorter
    simp only [List.length_cons] at shorter ⊢
    omega
  · simp

/-- Pass 2: `\n` becomes a space, and so does a run of spaces. -/
def collapse (mark : Text) : Text :=
  match mark with
  | [] => []
  | c :: rest =>
    if c = 0x0a then 0x20 :: collapse rest
    else if c = 0x20 then 0x20 :: collapse (rest.dropWhile (· = 0x20))
    else c :: collapse rest
termination_by mark.length
decreasing_by
  · simp
  · have shorter : (rest.dropWhile (· = 0x20)).length ≤ rest.length :=
      List.length_dropWhile_le ..
    simp only [List.length_cons]
    omega
  · simp

/-- Leading and trailing spaces are dropped. -/
def trim (out : Text) : Text := (out.dropWhile (· = 0x20)).rdropWhile (· = 0x20)

end RdbText

open RdbText in
/-- `normalizeRdbText`. -/
def normalizeRdbText (s : Text) : Text :=
  if s = [] then s else trim (collapse (markBreaks [] s).reverse)

namespace RdbText

/-- The byte sequences that `breakLen` recognizes. -/
def breakTokens : List Text :=
  [[0x0a], [0x0d], [0xc2, 0x85], [0xe2, 0x80, 0xa8], [0xe2, 0x80, 0xa9]]

/-- The position is a break exactly when a break token starts there. -/
theorem breakLen_pos_iff (s : Text) :
    0 < breakLen s ↔ ∃ token ∈ breakTokens, token <+: s := by
  cases s with
  | nil => simp [breakLen, breakTokens]
  | cons c rest =>
    have second : ∀ b : Byte, [b] <+: rest ↔ rest.head? = some b := by
      intro b
      cases rest <;> simp [List.cons_prefix_cons, eq_comm]
    have third : ∀ b d : Byte, [b, d] <+: rest ↔
        rest.head? = some b ∧ rest.tail.head? = some d := by
      intro b d
      cases rest with
      | nil => simp
      | cons e rest => cases rest <;> simp [List.cons_prefix_cons, eq_comm]
    simp only [breakTokens, List.mem_cons, List.not_mem_nil, or_false, exists_eq_or_imp,
      exists_eq_left, List.cons_prefix_cons, List.nil_prefix, and_true, second, third]
    unfold breakLen
    by_cases cr : c = 0x0d
    · simp only [cr, if_true]
      split <;> simp
    · by_cases lf : c = 0x0a
      · simp [lf]
      · simp only [cr, lf, if_false]
        by_cases nel : c = 0xc2 ∧ rest.head? = some 0x85
        · simp [nel]
        · simp only [nel, if_false]
          split
          · rename_i sep
            obtain ⟨lead, middle, last⟩ := sep
            simp only [lead, middle, true_and, Nat.zero_lt_succ, true_iff]
            rcases last with last | last
            · exact .inr (.inr (.inr (.inl last)))
            · exact .inr (.inr (.inr (.inr last)))
          · rename_i sep
            simp only [Nat.lt_irrefl, false_iff]
            rintro (h | h | h | h | h)
            · exact lf h.symm
            · exact cr h.symm
            · exact nel ⟨h.1.symm, h.2⟩
            · exact sep ⟨h.1.symm, h.2.1, .inl h.2.2⟩
            · exact sep ⟨h.1.symm, h.2.1, .inr h.2.2⟩


/-- A token that starts in `l ++ a :: t` and does not hold `a` ends in `l`. -/
theorem prefix_of_prefix_append {p l t : Text} {a : Byte} (starts : p <+: l ++ a :: t)
    (absent : a ∉ p) : p <+: l := by
  have whole : l ++ [a] <+: l ++ a :: t := by simp
  rcases List.prefix_or_prefix_of_prefix starts whole with short | long
  · rcases List.prefix_concat_iff.mp short with same | inside
    · exact absurd (by simp [same]) absent
    · exact inside
  · exact absurd (long.subset (by simp)) absent

/-- Nothing dropped is left in front. -/
theorem head_dropWhile {q : Byte → Bool} {s : Text} {c : Byte}
    (front : (s.dropWhile q).head? = some c) : q c = false := by
  have kept := List.head?_dropWhile_not q s
  rw [front] at kept
  exact kept

/-- What `absorb` leaves starts with no break, space or tab. -/
theorem absorb_spec (s : Text) :
    breakLen (absorb s) = 0 ∧ ∀ c, (absorb s).head? = some c → isHSpace c = false := by
  fun_induction absorb s with
  | case1 s found inductionHypothesis => exact inductionHypothesis
  | case2 s found => exact ⟨by omega, fun c front => head_dropWhile front⟩

/-! ### Pass 1 leaves no break but its own marks -/

/-- In `mark.reverse ++ s`, no break starts inside the mark but at a `\n`. -/
def Quiet : Text → Text → Prop
  | [], _ => True
  | c :: mark, s => (c = 0x0a ∨ breakLen (c :: s) = 0) ∧ Quiet mark (c :: s)

theorem Quiet.pop (q : Byte → Bool) (mark : Text) :
    ∀ s, Quiet mark s → ∃ popped, Quiet (mark.dropWhile q) (popped ++ s) := by
  induction mark with
  | nil => exact fun s _ => ⟨[], trivial⟩
  | cons c mark inductionHypothesis =>
    intro s quiet
    by_cases dropped : q c = true
    · obtain ⟨popped, rest⟩ := inductionHypothesis (c :: s) quiet.2
      refine ⟨popped ++ [c], ?_⟩
      rw [List.dropWhile_cons_of_pos dropped, List.append_assoc]
      exact rest
    · refine ⟨[], ?_⟩
      rw [List.dropWhile_cons_of_neg dropped]
      exact quiet

/-- What follows the mark may be cut off by a `\n`. -/
theorem Quiet.seal (mark s t : Text) :
    ∀ popped, Quiet mark (popped ++ s) → Quiet mark (popped ++ 0x0a :: t) := by
  induction mark with
  | nil => exact fun _ _ => trivial
  | cons c mark inductionHypothesis =>
    intro popped quiet
    obtain ⟨here, rest⟩ := quiet
    refine ⟨here.imp_right fun silent => ?_, inductionHypothesis (c :: popped) rest⟩
    by_contra found
    obtain ⟨token, known, starts⟩ := (breakLen_pos_iff _).mp (Nat.pos_of_ne_zero found)
    have broken : 0 < breakLen (c :: (popped ++ s)) := by
      apply (breakLen_pos_iff _).mpr
      by_cases feed : token = [0x0a]
      · refine ⟨token, known, ?_⟩
        subst feed
        obtain ⟨same, _⟩ := List.cons_prefix_cons.mp starts
        exact List.cons_prefix_cons.mpr ⟨same, List.nil_prefix⟩
      · have absent : (0x0a : Byte) ∉ token := by
          simp only [breakTokens, List.mem_cons, List.not_mem_nil, or_false] at known
          rcases known with rfl | rfl | rfl | rfl | rfl
          · exact absurd rfl feed
          all_goals decide
        have inside := prefix_of_prefix_append (l := c :: popped) starts absent
        exact ⟨token, known, inside.trans ((List.prefix_append (c :: popped) s))⟩
    omega

theorem Quiet.reverse {token : Text} (known : token ∈ breakTokens) (mark : Text) :
    ∀ s, Quiet mark s → (0x0a : Byte) ∉ token → ¬ token <:+: s →
      ¬ token <:+: mark.reverse ++ s := by
  induction mark with
  | nil => exact fun s _ _ fresh => fresh
  | cons c mark inductionHypothesis =>
    intro s quiet absent fresh
    rw [List.reverse_cons, List.append_assoc]
    refine inductionHypothesis (c :: s) quiet.2 absent ?_
    rw [List.infix_cons_iff]
    rintro (starts | later)
    · rcases quiet.1 with feed | silent
      · subst feed
        cases token with
        | nil => exact absurd known (by decide)
        | cons d token =>
          obtain ⟨same, _⟩ := List.cons_prefix_cons.mp starts
          exact absent (same ▸ List.mem_cons_self ..)
      · have found := (breakLen_pos_iff _).mpr ⟨token, known, starts⟩
        omega
    · exact fresh later

theorem quiet_markBreaks (mark s : Text) (quiet : Quiet mark s) :
    Quiet (markBreaks mark s) [] := by
  fun_induction markBreaks mark s with
  | case1 mark => exact quiet
  | case2 mark c rest found inductionHypothesis =>
    apply inductionHypothesis
    obtain ⟨popped, dropped⟩ := Quiet.pop isHSpace mark _ quiet
    exact ⟨.inl rfl, Quiet.seal _ _ _ [] dropped⟩
  | case3 mark c rest found inductionHypothesis =>
    exact inductionHypothesis ⟨.inr (by omega), quiet⟩

/-! ### Pass 1 keeps spaces away from its marks -/

/-- What may stand next to each other: no mark next to a space, a tab or a mark. -/
def Apart (a b : Byte) : Prop :=
  (a = 0x0a → isHSpace b = false ∧ b ≠ 0x0a) ∧ (b = 0x0a → isHSpace a = false ∧ a ≠ 0x0a)

theorem apart_symm {a b : Byte} (apart : Apart a b) : Apart b a := ⟨apart.2, apart.1⟩

/-- Dropping spaces and tabs uncovers no mark. -/
theorem dropWhile_head_ne (q : Byte → Bool) (spaces : ∀ c, q c = true → isHSpace c = true)
    (mark : Text) (chain : mark.IsChain Apart) (front : mark.head? ≠ some 0x0a) :
    (mark.dropWhile q).head? ≠ some 0x0a := by
  induction mark with
  | nil => exact front
  | cons c mark inductionHypothesis =>
    by_cases dropped : q c = true
    · rw [List.dropWhile_cons_of_pos dropped]
      obtain ⟨next, rest⟩ := List.isChain_cons.mp chain
      refine inductionHypothesis rest fun mark' => ?_
      have clear := ((next _ mark').2 rfl).1
      rw [spaces c dropped] at clear
      exact Bool.noConfusion clear
    · rw [List.dropWhile_cons_of_neg dropped]
      exact front

theorem chain_markBreaks (mark s : Text) (chain : mark.IsChain Apart)
    (boundary : mark.head? = some 0x0a →
      breakLen s = 0 ∧ ∀ c, s.head? = some c → isHSpace c = false) :
    (markBreaks mark s).IsChain Apart := by
  fun_induction markBreaks mark s with
  | case1 mark => exact chain
  | case2 mark c rest found inductionHypothesis =>
    have uncovered : (mark.dropWhile isHSpace).head? ≠ some 0x0a := by
      refine dropWhile_head_ne _ (fun _ space => space) mark chain fun sealed => ?_
      have silent := (boundary sealed).1
      omega
    apply inductionHypothesis
    · refine List.isChain_cons.mpr ⟨fun b front => ?_, chain.suffix (List.dropWhile_suffix _)⟩
      have clear := head_dropWhile front
      have other : b ≠ 0x0a := fun same => uncovered (same ▸ front)
      exact ⟨fun _ => ⟨clear, other⟩, fun same => absurd same other⟩
    · exact fun _ => absorb_spec _
  | case3 mark c rest found inductionHypothesis =>
    have other : c ≠ 0x0a := by
      rintro rfl
      exact found ((breakLen_pos_iff _).mpr ⟨[0x0a], by decide, by simp⟩)
    apply inductionHypothesis
    · refine List.isChain_cons.mpr ⟨fun b front => ⟨fun same => absurd same other, ?_⟩, chain⟩
      rintro rfl
      exact ⟨(boundary front).2 c rfl, other⟩
    · exact fun same => absurd (Option.some.inj same) other

/-! ### Pass 2 joins nothing to a break -/

/-- What stands in the collapsed text without spaces or marks stood in the marked text. -/
theorem prefix_of_prefix_collapse (mark : Text) :
    ∀ p : Text, (0x20 : Byte) ∉ p → p <+: collapse mark → p <+: mark := by
  fun_induction collapse mark with
  | case1 => exact fun p _ starts => starts
  | case2 rest inductionHypothesis =>
    intro p absent starts
    cases p with
    | nil => exact List.nil_prefix
    | cons b p => exact absurd ((List.cons_prefix_cons.mp starts).1 ▸ List.mem_cons_self ..) absent
  | case3 rest _ inductionHypothesis =>
    intro p absent starts
    cases p with
    | nil => exact List.nil_prefix
    | cons b p => exact absurd ((List.cons_prefix_cons.mp starts).1 ▸ List.mem_cons_self ..) absent
  | case4 c rest feed space inductionHypothesis =>
    intro p absent starts
    cases p with
    | nil => exact List.nil_prefix
    | cons b p =>
      obtain ⟨same, later⟩ := List.cons_prefix_cons.mp starts
      have absent' : (0x20 : Byte) ∉ p := fun inside => absent (List.mem_cons_of_mem _ inside)
      exact List.cons_prefix_cons.mpr ⟨same, inductionHypothesis p absent' later⟩

theorem infix_of_infix_collapse (mark p : Text) (absent : (0x20 : Byte) ∉ p)
    (inside : p <:+: collapse mark) : p <:+: mark := by
  have here := prefix_of_prefix_collapse mark p absent
  fun_induction collapse mark with
  | case1 => exact inside
  | case2 rest inductionHypothesis =>
    rcases List.infix_cons_iff.mp inside with starts | later
    · exact (here starts).isInfix
    · exact (inductionHypothesis later (prefix_of_prefix_collapse _ p absent)).trans
        (List.suffix_cons _ _).isInfix
  | case3 rest _ inductionHypothesis =>
    rcases List.infix_cons_iff.mp inside with starts | later
    · exact (here starts).isInfix
    · exact (inductionHypothesis later (prefix_of_prefix_collapse _ p absent)).trans
        ((List.dropWhile_suffix _).trans (List.suffix_cons _ _)).isInfix
  | case4 c rest feed space inductionHypothesis =>
    rcases List.infix_cons_iff.mp inside with starts | later
    · exact (here starts).isInfix
    · exact (inductionHypothesis later (prefix_of_prefix_collapse _ p absent)).trans
        (List.suffix_cons _ _).isInfix

theorem feed_notMem_collapse (mark : Text) : (0x0a : Byte) ∉ collapse mark := by
  fun_induction collapse mark with
  | case1 => exact List.not_mem_nil
  | case2 rest inductionHypothesis => simpa using inductionHypothesis
  | case3 rest _ inductionHypothesis => simpa using inductionHypothesis
  | case4 c rest feed space inductionHypothesis =>
    simpa using ⟨fun same => feed same.symm, inductionHypothesis⟩

/-- A space in front of the collapsed text comes from a space or a mark. -/
theorem collapse_head (mark : Text) (front : (collapse mark).head? = some 0x20) :
    mark.head? = some 0x20 ∨ mark.head? = some 0x0a := by
  unfold collapse at front
  split at front
  · exact .inl front
  · rename_i c rest
    split at front
    · rename_i feed
      exact .inr (by rw [feed]; rfl)
    · split at front
      · rename_i space
        exact .inl (by rw [space]; rfl)
      · exact .inl front

/-- No two spaces. -/
def Single (a b : Byte) : Prop := ¬ (a = 0x20 ∧ b = 0x20)

theorem chain_collapse (mark : Text) (chain : mark.IsChain Apart) :
    (collapse mark).IsChain Single := by
  fun_induction collapse mark with
  | case1 => exact List.isChain_nil
  | case2 rest inductionHypothesis =>
    obtain ⟨next, rest'⟩ := List.isChain_cons.mp chain
    refine List.isChain_cons.mpr ⟨fun b front => ?_, inductionHypothesis rest'⟩
    rintro ⟨_, rfl⟩
    rcases collapse_head rest front with space | feed
    · exact absurd ((next _ space).1 rfl).1 (by decide)
    · exact ((next _ feed).1 rfl).2 rfl
  | case3 rest _ inductionHypothesis =>
    obtain ⟨next, rest'⟩ := List.isChain_cons.mp chain
    refine List.isChain_cons.mpr
      ⟨fun b front => ?_, inductionHypothesis (rest'.suffix (List.dropWhile_suffix _))⟩
    rintro ⟨_, rfl⟩
    rcases collapse_head _ front with space | feed
    · exact absurd (head_dropWhile space) (by decide)
    · refine dropWhile_head_ne (fun c => decide (c = 0x20)) ?_ (0x20 :: rest) chain (by simp) ?_
      · intro c space
        simp [isHSpace, of_decide_eq_true space]
      · rw [List.dropWhile_cons_of_pos (by simp)]
        exact feed
  | case4 c rest feed space inductionHypothesis =>
    obtain ⟨next, rest'⟩ := List.isChain_cons.mp chain
    exact List.isChain_cons.mpr ⟨fun b front both => space both.1, inductionHypothesis rest'⟩

/-! ### Clean text -/

/-- Text without breaks and without two adjacent spaces, that no space starts or ends. -/
structure Clean (s : Text) : Prop where
  /-- No break. -/
  noBreak : ∀ token ∈ breakTokens, ¬ token <:+: s
  /-- No two adjacent spaces. -/
  single : s.IsChain Single
  /-- No space starts it. -/
  first : s.head? ≠ some 0x20
  /-- No space ends it. -/
  last : s.getLast? ≠ some 0x20

theorem infix_trim (out : Text) : trim out <:+: out :=
  (List.rdropWhile_prefix _ _).isInfix.trans (List.dropWhile_suffix _).isInfix

/-- What normalization stores is clean. -/
theorem clean_normalizeRdbText (s : Text) : Clean (normalizeRdbText s) := by
  unfold normalizeRdbText
  split
  · rename_i empty
    subst empty
    exact ⟨by decide, List.isChain_nil, by simp, by simp⟩
  · have quiet := quiet_markBreaks [] s trivial
    have apart := chain_markBreaks [] s List.isChain_nil (by simp)
    have apart' : (markBreaks [] s).reverse.IsChain Apart := by
      rw [List.isChain_reverse]
      exact apart.imp fun _ _ => apart_symm
    have single := List.IsChain.infix (chain_collapse _ apart') (infix_trim _)
    refine ⟨fun token known inside => ?_, single, ?_, ?_⟩
    · have collapsed := inside.trans (infix_trim _)
      by_cases feed : token = [0x0a]
      · subst feed
        exact feed_notMem_collapse _ (collapsed.subset (List.mem_cons_self ..))
      · have absent : (0x0a : Byte) ∉ token ∧ (0x20 : Byte) ∉ token ∧ ¬ token <:+: [] := by
          simp only [breakTokens, List.mem_cons, List.not_mem_nil, or_false] at known
          rcases known with rfl | rfl | rfl | rfl | rfl
          · exact absurd rfl feed
          all_goals decide
        have marked := infix_of_infix_collapse _ _ absent.2.1 collapsed
        rw [← List.append_nil (markBreaks [] s).reverse] at marked
        exact Quiet.reverse known _ _ quiet absent.1 absent.2.2 marked
    · intro front
      obtain ⟨tail, whole⟩ := List.rdropWhile_prefix (· = (0x20 : Byte))
        ((collapse (markBreaks [] s).reverse).dropWhile (· = 0x20))
      have front' : ((collapse (markBreaks [] s).reverse).dropWhile (· = 0x20)).head? =
          some 0x20 := by
        rw [← whole, List.head?_append]
        exact congrArg (·.or tail.head?) front
      exact absurd (head_dropWhile front') (by decide)
    · intro back
      have some' : trim (collapse (markBreaks [] s).reverse) ≠ [] := by
        intro empty
        rw [empty] at back
        exact absurd back (by simp)
      have space := Option.some.inj ((List.getLast?_eq_some_getLast some').symm.trans back)
      exact List.rdropWhile_last_not _ _ some' (decide_eq_true space)

theorem markBreaks_of_noBreak (mark s : Text)
    (noBreak : ∀ token ∈ breakTokens, ¬ token <:+: s) : markBreaks mark s = s.reverse ++ mark := by
  fun_induction markBreaks mark s with
  | case1 mark => rfl
  | case2 mark c rest found inductionHypothesis =>
    obtain ⟨token, known, starts⟩ := (breakLen_pos_iff _).mp found
    exact absurd starts.isInfix (noBreak token known)
  | case3 mark c rest found inductionHypothesis =>
    rw [inductionHypothesis fun token known inside =>
      noBreak token known (inside.trans (List.suffix_cons c rest).isInfix)]
    simp

theorem collapse_of_single (mark : Text) (feed : (0x0a : Byte) ∉ mark)
    (single : mark.IsChain Single) : collapse mark = mark := by
  fun_induction collapse mark with
  | case1 => rfl
  | case2 rest inductionHypothesis => exact absurd (List.mem_cons_self ..) feed
  | case3 rest _ inductionHypothesis =>
    obtain ⟨next, rest'⟩ := List.isChain_cons.mp single
    have kept : rest.dropWhile (· = 0x20) = rest := by
      cases rest with
      | nil => rfl
      | cons b rest =>
        rw [List.dropWhile_cons_of_neg]
        intro space
        exact next b rfl ⟨rfl, of_decide_eq_true space⟩
    rw [kept] at inductionHypothesis ⊢
    rw [inductionHypothesis (fun inside => feed (List.mem_cons_of_mem _ inside)) rest']
  | case4 c rest _ space inductionHypothesis =>
    obtain ⟨next, rest'⟩ := List.isChain_cons.mp single
    rw [inductionHypothesis (fun inside => feed (List.mem_cons_of_mem _ inside)) rest']

/-- Clean text is left alone. -/
theorem normalizeRdbText_of_clean {s : Text} (clean : Clean s) : normalizeRdbText s = s := by
  have feed : (0x0a : Byte) ∉ s := by
    intro inside
    obtain ⟨before, after, whole⟩ := List.append_of_mem inside
    refine clean.noBreak [0x0a] (by decide) ⟨before, after, ?_⟩
    simp [whole]
  unfold normalizeRdbText
  split
  · rfl
  · rw [markBreaks_of_noBreak [] s clean.noBreak, List.append_nil, List.reverse_reverse,
      collapse_of_single s feed clean.single]
    have left : s.dropWhile (· = 0x20) = s := by
      cases s with
      | nil => rfl
      | cons c rest =>
        rw [List.dropWhile_cons_of_neg]
        intro space
        exact clean.first (congrArg some (of_decide_eq_true space))
    unfold trim
    rw [left, List.rdropWhile_eq_self_iff]
    intro some' space
    exact clean.last (List.getLast?_eq_some_getLast some' ▸ congrArg some (of_decide_eq_true space))

/-- Normalizing twice changes nothing more. -/
@[simp] theorem normalizeRdbText_idempotent (s : Text) :
    normalizeRdbText (normalizeRdbText s) = normalizeRdbText s :=
  normalizeRdbText_of_clean (clean_normalizeRdbText s)

end RdbText

end VectorDebugger

import VectorDebugger.Debugger.MapLoader

/-!
# Reading MAP files

A line is a name, an address and a comment, and the comment is the list of its fields, whatever
blanks stand around them. So each line of a documented file gives its own symbol, a constant is
counted as skipped, and the symbols come in the order of the file.
-/

namespace VectorDebugger.MapLoader

/-! ## Searching -/

theorem find_other {pattern rest : Text} {c : Byte}
    (differs : ¬ pattern.isPrefixOf (c :: rest) = true) :
    find pattern (c :: rest) = (find pattern rest).map fun found => (c :: found.1, found.2) :=
  if_neg differs

/-- What does not begin the pattern is passed. -/
theorem find_before {first : Byte} {pattern before : Text} (free : first ∉ before) (rest : Text) :
    find (first :: pattern) (before ++ rest) =
      (find (first :: pattern) rest).map fun found => (before ++ found.1, found.2) := by
  induction before with
  | nil =>
    show _ = (find (first :: pattern) rest).map id
    rw [Option.map_id]
    rfl
  | cons c before inductionHypothesis =>
    have other : first ≠ c := fun same => free (same ▸ List.mem_cons_self)
    have later := inductionHypothesis fun inside => free (List.mem_cons_of_mem c inside)
    have differs : ¬ (first :: pattern).isPrefixOf (c :: (before ++ rest)) = true := by
      rw [List.isPrefixOf_iff_prefix]
      exact fun same => other (List.cons_prefix_cons.mp same).1
    rw [List.cons_append, find_other differs, later, Option.map_map]
    rfl

theorem find_none {first : Byte} {pattern text : Text} (free : first ∉ text) :
    find (first :: pattern) text = none := by
  have nothing := @find_before first pattern text free []
  rw [List.append_nil] at nothing
  rw [nothing]
  rfl

theorem find_here {first : Byte} {pattern : Text} (rest : Text) :
    find (first :: pattern) (first :: pattern ++ rest) = some ([], first :: pattern ++ rest) :=
  if_pos (List.isPrefixOf_iff_prefix.mpr (List.prefix_append _ _))

/-! ## Characters -/

/-- A class of characters that none of these is in. -/
theorem ne_of_class {p : Byte → Bool} {others : Text} (out : ∀ d ∈ others, p d = false) {c : Byte}
    (inside : p c = true) : ∀ d ∈ others, c ≠ d := by
  intro d listed same
  rw [same, out d listed] at inside
  cases inside

theorem isBlank_eq_false {c : Byte} (other : ∀ d ∈ ([0x20, 0x09, 0x0d, 0x0a] : Text), c ≠ d) :
    isBlank c = false := by
  simp only [List.forall_mem_cons] at other
  unfold isBlank
  rw [decide_eq_false other.1, decide_eq_false other.2.1, decide_eq_false other.2.2.1,
    decide_eq_false other.2.2.2.1]
  rfl

theorem isNameChar_cases {c : Byte} (name : isNameChar c = true) :
    isBlank c = false ∧ c ≠ 0x2c ∧ c ≠ 0x3a ∧ c ≠ 0x3b ∧ c ≠ 0x3d ∧ c ≠ 0x0a := by
  have blank := @ne_of_class isNameChar [0x20, 0x09, 0x0d, 0x0a] (by decide) c name
  have other := @ne_of_class isNameChar [0x2c, 0x3a, 0x3b, 0x3d, 0x0a] (by decide) c name
  simp only [List.forall_mem_cons] at other
  exact ⟨isBlank_eq_false blank, other.1, other.2.1, other.2.2.1, other.2.2.2.1,
    other.2.2.2.2.1⟩

theorem isdigit_cases {c : Byte} (digit : isdigit c = true) :
    isBlank c = false ∧ c ≠ 0x2c ∧ c ≠ 0x3a ∧ c ≠ 0x0a := by
  have blank := @ne_of_class isdigit [0x20, 0x09, 0x0d, 0x0a] (by decide) c digit
  have other := @ne_of_class isdigit [0x2c, 0x3a, 0x0a] (by decide) c digit
  simp only [List.forall_mem_cons] at other
  exact ⟨isBlank_eq_false blank, other.1, other.2.1, other.2.2.1⟩

theorem isxdigit_cases {c : Byte} (digit : isxdigit c = true) :
    isBlank c = false ∧ c ≠ 0x3b ∧ c ≠ 0x3d ∧ c ≠ 0x0a := by
  have blank := @ne_of_class isxdigit [0x20, 0x09, 0x0d, 0x0a] (by decide) c digit
  have other := @ne_of_class isxdigit [0x3b, 0x3d, 0x0a] (by decide) c digit
  simp only [List.forall_mem_cons] at other
  exact ⟨isBlank_eq_false blank, other.1, other.2.1, other.2.2.1⟩

/-! ## Source locations -/

theorem takeWhile_line {line : Text} (digits : IsLine line) (front : Text) :
    ((front ++ 0x3a :: line).reverse.takeWhile (· ≠ 0x3a)).reverse = line := by
  rw [List.reverse_append, List.reverse_cons, List.append_assoc,
    List.takeWhile_append_of_pos fun c mem => by
      exact decide_eq_true (isdigit_cases (digits.2 c (List.mem_reverse.mp mem))).2.2.1]
  show (line.reverse ++ []).reverse = line
  rw [List.append_nil, List.reverse_reverse]

/-- A location is read from its text. -/
theorem sourceLocation_text {source : SourceRef} (documented : source.Documented) :
    ∀ token ∈ source.text, sourceLocation token = some source.read := by
  intro token mem
  have ends : ∀ {front line : Text}, IsLine line →
      (front ++ 0x3a :: line).contains 0x3a = true ∧
        ((front ++ 0x3a :: line).reverse.takeWhile (· ≠ 0x3a)).reverse = line ∧
        (line ≠ [] ∧ line.all isdigit = true) := fun digits =>
    ⟨List.contains_iff_mem.mpr (List.mem_append_right _ List.mem_cons_self),
      takeWhile_line digits _, digits.1, List.all_eq_true.mpr digits.2⟩
  cases source with
  | absent => exact absurd mem List.not_mem_nil
  | label file line =>
    obtain ⟨isFile, isLine⟩ := documented
    obtain ⟨colon, last, number⟩ := @ends file line isLine
    obtain rfl := List.mem_singleton.mp mem
    have lineFree : (0x3a : Byte) ∉ line := fun inside =>
      (isdigit_cases (isLine.2 _ inside)).2.2.1 rfl
    have none : find (ascii "::") (file ++ 0x3a :: line) = none := by
      have passed := @find_before 0x3a [0x3a] file isFile.colon (0x3a :: line)
      have here : find [0x3a, 0x3a] (0x3a :: line) = none := by
        have differs : ¬ [(0x3a : Byte), 0x3a].isPrefixOf (0x3a :: line) = true := by
          rw [List.isPrefixOf_iff_prefix]
          intro same
          have second := (List.cons_prefix_cons.mp same).2
          exact lineFree (second.subset List.mem_cons_self)
        rw [find_other differs, find_none lineFree]
        rfl
      rw [here] at passed
      exact passed
    have length : (file ++ 0x3a :: line).length - line.length - 1 = file.length := by
      rw [List.length_append, List.length_cons]
      omega
    unfold sourceLocation
    rw [if_pos colon]
    simp only [last]
    rw [if_pos number, none, length, List.take_left]
    rfl
  | function file name n m line =>
    obtain ⟨isFile, -, -, -, isLine⟩ := documented
    obtain ⟨middle, middleEq⟩ : ∃ middle, middle =
        ascii "::" ++ name ++ ascii "::" ++ n ++ ascii "::" ++ m := ⟨_, rfl⟩
    obtain ⟨colon, last, number⟩ := @ends (file ++ middle) line isLine
    obtain rfl := List.mem_singleton.mp mem
    have some' : find (ascii "::") (file ++ middle ++ 0x3a :: line) =
        some (file, middle ++ 0x3a :: line) := by
      rw [List.append_assoc]
      refine (@find_before 0x3a [0x3a] file isFile.colon (middle ++ 0x3a :: line)).trans ?_
      have here := @find_here 0x3a [0x3a]
        (name ++ ascii "::" ++ n ++ ascii "::" ++ m ++ 0x3a :: line)
      have shape : middle ++ 0x3a :: line =
          0x3a :: [0x3a] ++ (name ++ ascii "::" ++ n ++ ascii "::" ++ m ++ 0x3a :: line) := by
        rw [middleEq]
        simp only [List.append_assoc]
        rfl
      rw [shape, here, Option.map_some, List.append_nil]
    rw [← middleEq]
    unfold sourceLocation
    rw [if_pos colon]
    simp only [last]
    rw [if_pos number, some']
    rfl

/-- A token without a colon is no location. -/
theorem sourceLocation_none {token : Text} (free : 0x3a ∉ token) : sourceLocation token = none :=
  if_neg fun inside => free (List.contains_iff_mem.mp inside)

/-! ## Comments -/

theorem fields_joinFields (fields : List Text) (free : ∀ f ∈ fields, 0x2c ∉ f) :
    Fields.fields 0x2c isBlank (joinFields fields) =
      (fields.map (Fields.trim isBlank)).filter (· ≠ []) := by
  induction fields with
  | nil => rfl
  | cons f fields inductionHypothesis =>
    have first := free f List.mem_cons_self
    have later := inductionHypothesis fun g mem => free g (List.mem_cons_of_mem _ mem)
    cases fields with
    | nil => exact Fields.fields_free first
    | cons g fields =>
      show Fields.fields 0x2c isBlank (f ++ 0x2c :: 0x20 :: joinFields (g :: fields)) = _
      rw [Fields.fields_append first, Fields.fields_cons rfl (by decide), later, List.map_cons,
        List.map_cons, ← List.filter_append]
      rfl

/-- A field that begins and ends with no blank and has no comma. -/
structure IsField (f : Text) : Prop where
  /-- The blanks around it. -/
  trimmed : Fields.trim isBlank f = f
  /-- No comma. -/
  comma : 0x2c ∉ f
  /-- No line end. -/
  line : 0x0a ∉ f

theorem isField_of_name {f : Text} (name : ∀ c ∈ f, isNameChar c = true) : IsField f where
  trimmed := Fields.trim_eq_self
    (fun c mem => (isNameChar_cases (name c (List.mem_of_mem_head? mem))).1)
    fun c mem => (isNameChar_cases (name c (List.mem_of_getLast? mem))).1
  comma inside := (isNameChar_cases (name _ inside)).2.1 rfl
  line inside := (isNameChar_cases (name _ inside)).2.2.2.2.2 rfl

theorem isField_of_source {source : SourceRef} (documented : source.Documented) :
    ∀ f ∈ source.text, IsField f := by
  have whole : ∀ {file middle line : Text}, IsFile file → IsPiece middle → IsLine line →
      IsField (file ++ middle ++ 0x3a :: line) := by
    intro file middle line isFile piece isLine
    obtain ⟨c, rest, rfl, black⟩ := isFile.first
    obtain ⟨some', digits⟩ := isLine
    refine ⟨Fields.trim_eq_self (fun d mem => ?_) fun d mem => ?_, fun inside => ?_,
      fun inside => ?_⟩
    · obtain rfl : c = d := Option.some.inj mem
      exact black
    · have last : d ∈ line := by
        rw [List.getLast?_append_of_ne_nil _ (List.cons_ne_nil _ _),
          ← List.singleton_append, List.getLast?_append_of_ne_nil _ some'] at mem
        exact List.mem_of_getLast? mem
      exact (isdigit_cases (digits d last)).1
    · rcases List.mem_append.mp inside with front | back
      · rcases List.mem_append.mp front with first | second
        · exact (isFile.piece _ first).1 rfl
        · exact (piece _ second).1 rfl
      · rcases List.mem_cons.mp back with colon | digit
        · exact absurd colon (by decide)
        · exact (isdigit_cases (digits _ digit)).2.1 rfl
    · rcases List.mem_append.mp inside with front | back
      · rcases List.mem_append.mp front with first | second
        · exact (isFile.piece _ first).2 rfl
        · exact (piece _ second).2 rfl
      · rcases List.mem_cons.mp back with colon | digit
        · exact absurd colon (by decide)
        · exact (isdigit_cases (digits _ digit)).2.2.2 rfl
  have colons : IsPiece (ascii "::") := by decide
  intro f mem
  cases source with
  | absent => exact absurd mem List.not_mem_nil
  | label file line =>
    obtain ⟨isFile, isLine⟩ := documented
    obtain rfl := List.mem_singleton.mp mem
    have field := @whole file [] line isFile (fun _ inside => absurd inside List.not_mem_nil) isLine
    rw [List.append_nil] at field
    exact field
  | function file name n m line =>
    obtain ⟨isFile, isName, isN, isM, isLine⟩ := documented
    obtain rfl := List.mem_singleton.mp mem
    refine whole isFile (fun c inside => ?_) isLine
    simp only [List.mem_append] at inside
    rcases inside with ((((inside | inside) | inside) | inside) | inside) | inside
    · exact colons c inside
    · exact isName c inside
    · exact colons c inside
    · exact isN c inside
    · exact colons c inside
    · exact isM c inside

/-- The fields of a comment, with what stands around them. -/
theorem fields_comment {entry : MapEntry} (documented : entry.Documented) :
    ∀ f ∈ entry.comment, IsField f := by
  intro f mem
  rcases List.mem_cons.mp mem with rfl | mem
  · unfold MapEntry.typeText
    split
    · exact isField_of_name (by decide)
    · exact isField_of_name (by decide)
  · rcases List.mem_cons.mp mem with rfl | mem
    · unfold MapEntry.visibilityText
      split
      · exact isField_of_name (by decide)
      · exact isField_of_name (by decide)
    · rcases List.mem_append.mp mem with field | source
      · exact isField_of_name (documented.fields f field)
      · exact isField_of_source documented.source f source

/-- The tail of a line has the fields of the entry, whatever blanks are cut off its end. -/
theorem fields_tail {entry : MapEntry} (documented : entry.Documented) (cr : Bool) :
    Fields.fields 0x2c isBlank (trim ((0x20 :: joinFields entry.comment ++
        if cr then [0x0d] else []).rdropWhile isBlank)) =
      entry.comment.filter (· ≠ []) := by
  have isField := fields_comment documented
  have same : entry.comment.map (Fields.trim isBlank) = entry.comment :=
    (List.map_congr_left fun f mem => (isField f mem).trimmed).trans (List.map_id _)
  have joined := fields_joinFields entry.comment fun f mem => (isField f mem).comma
  rw [same] at joined
  unfold trim
  rw [Fields.fields_trim rfl, Fields.fields_rdropWhile rfl]
  cases cr with
  | true =>
    rw [if_pos rfl, Fields.fields_concat rfl (by decide), Fields.fields_cons rfl (by decide),
      joined]
  | false =>
    rw [if_neg Bool.false_ne_true, List.append_nil, Fields.fields_cons rfl (by decide), joined]

/-- Blank pieces say nothing. -/
theorem foldl_readField (pieces : List Text) : ∀ read : MapFields,
    (pieces.map trim).foldl readField read =
      ((pieces.map (Fields.trim isBlank)).filter (· ≠ [])).foldl readField read := by
  induction pieces with
  | nil => exact fun _ => rfl
  | cons piece pieces inductionHypothesis =>
    intro read
    rw [List.map_cons, List.map_cons, List.foldl_cons, inductionHypothesis]
    by_cases blank : Fields.trim isBlank piece = []
    · have nothing : readField read (trim piece) = read := by
        unfold trim
        rw [blank]
        rfl
      rw [nothing, List.filter_cons_of_neg (by rw [decide_eq_true_eq]; exact not_not.mpr blank)]
    · rw [List.filter_cons_of_pos (by rw [decide_eq_true_eq]; exact blank), List.foldl_cons]
      rfl

/-- Fields that have the value of none keep what was read. -/
theorem foldl_readField_others (fields : List Text) :
    ∀ {read : MapFields}, read.isAddr = true →
      (∀ f ∈ fields, f ∉ [ascii "const", ascii "public", ascii "local"]) →
      fields.foldl readField read = read := by
  induction fields with
  | nil => exact fun _ _ => rfl
  | cons f fields inductionHypothesis =>
    intro read addr apart
    have others := apart f List.mem_cons_self
    simp only [List.mem_cons, List.not_mem_nil, or_false, not_or] at others
    have kept : readField read f = read := by
      unfold readField
      rw [if_neg others.1, if_neg others.2.1, if_neg others.2.2]
      split
      · rw [← addr]
      · rfl
    rw [List.foldl_cons, kept]
    exact inductionHypothesis addr fun g mem => apart g (List.mem_cons_of_mem _ mem)

theorem foldl_readField_const (fields : List Text) :
    ∀ {read : MapFields}, read.isConst = true → (fields.foldl readField read).isConst = true := by
  induction fields with
  | nil => exact fun const => const
  | cons f fields inductionHypothesis =>
    intro read const
    refine inductionHypothesis ?_
    unfold readField
    split
    · exact const
    · split
      · rfl
      · split
        · exact const
        · split
          · exact const
          · exact const

/-! ## Lines -/

section Entry

variable {entry : MapEntry} (documented : entry.Documented)

include documented

/-- The front of a line begins and ends with no blank. -/
theorem front_ends : (∃ c rest, entry.front = c :: rest ∧ isNameChar c = true) ∧
    ∀ c ∈ entry.front.getLast?, isBlank c = false := by
  obtain ⟨c, rest, nameEq⟩ := List.exists_cons_of_ne_nil documented.named
  have here : isNameChar c = true := documented.name c (nameEq ▸ List.mem_cons_self)
  refine ⟨⟨c, rest ++ (List.replicate entry.padding 0x20 ++
    (ascii "= $" ++ (entry.hex ++ ascii " ;"))), ?_, here⟩, fun d mem => ?_⟩
  · unfold MapEntry.front
    rw [nameEq]
    rfl
  · have last : entry.front.getLast? = some 0x3b := by
      have shape : entry.front = (entry.name ++ (List.replicate entry.padding 0x20 ++
          (ascii "= $" ++ (entry.hex ++ [0x20])))) ++ [0x3b] := by
        unfold MapEntry.front
        simp only [List.append_assoc]
        rfl
      rw [shape, List.getLast?_concat]
    rw [last] at mem
    obtain rfl := Option.some.inj mem
    rfl

/-- A line without the blanks around it. -/
theorem trim_line (rest : Text) :
    trim (entry.front ++ rest) = entry.front ++ rest.rdropWhile isBlank := by
  obtain ⟨⟨c, front, frontEq, name⟩, last⟩ := front_ends documented
  have some' : entry.front ≠ [] := by
    rw [frontEq]
    exact List.cons_ne_nil _ _
  refine Fields.trim_append some' (fun d mem => ?_) last rest
  rw [frontEq] at mem
  obtain rfl := Option.some.inj mem
  exact (isNameChar_cases name).1

/-- The definition is found behind the name. -/
theorem find_line (rest : Text) :
    find (ascii "= $") (entry.front ++ rest) =
      some (entry.name ++ List.replicate entry.padding 0x20,
        ascii "= $" ++ (entry.hex ++ (ascii " ;" ++ rest))) := by
  have free : (0x3d : Byte) ∉ entry.name ++ List.replicate entry.padding 0x20 := by
    intro inside
    rcases List.mem_append.mp inside with name | blank
    · exact (isNameChar_cases (documented.name _ name)).2.2.2.2.1 rfl
    · exact absurd (List.eq_of_mem_replicate blank) (by decide)
  have shape : entry.front ++ rest = (entry.name ++ List.replicate entry.padding 0x20) ++
      (0x3d :: [0x20, 0x24] ++ (entry.hex ++ (ascii " ;" ++ rest))) := by
    unfold MapEntry.front
    simp only [List.append_assoc]
    rfl
  have found := @find_before 0x3d [0x20, 0x24] _ free
    (0x3d :: [0x20, 0x24] ++ (entry.hex ++ (ascii " ;" ++ rest)))
  rw [find_here, Option.map_some, List.append_nil] at found
  rw [shape]
  exact found

theorem definition_line (rest : Text) :
    definition (entry.front ++ rest) =
      some (entry.name ++ List.replicate entry.padding 0x20,
        entry.hex ++ (ascii " ;" ++ rest)) := by
  unfold definition
  rw [find_line documented]
  rfl

theorem takeWhile_hex (rest : Text) :
    (entry.hex ++ (ascii " ;" ++ rest)).takeWhile isxdigit = entry.hex := by
  rw [List.takeWhile_append_of_pos documented.hex]
  exact List.append_nil _

theorem dropWhile_hex (rest : Text) :
    (entry.hex ++ (ascii " ;" ++ rest)).dropWhile isxdigit = ascii " ;" ++ rest := by
  rw [List.dropWhile_append_of_pos documented.hex]
  rfl

/-- Four digits are an address. -/
theorem parseHexAddress_hex :
    parseHexAddress entry.hex = some (BitVec.ofNat 16 (scanHex entry.hex)) := by
  have some' : entry.hex ≠ [] := fun none => by
    have four := documented.four
    rw [none] at four
    cases four
  have digit : ∀ c : Byte, (hexValue c).getD 0 < 16 := by
    intro c
    unfold hexValue
    split_ifs with decimal capital small
    · have upto : c.toNat ≤ 0x39 := decimal.2
      show c.toNat - 0x30 < 16
      omega
    · have upto : c.toNat ≤ 0x46 := capital.2
      show c.toNat - 0x37 < 16
      omega
    · have upto : c.toNat ≤ 0x66 := small.2
      show c.toNat - 0x57 < 16
      omega
    · exact Nat.zero_lt_succ 15
  have bound : ∀ (hex : Text) (value : Nat),
      hex.foldl (fun value c => 16 * value + (hexValue c).getD 0) value <
        16 ^ hex.length * (value + 1) := by
    intro hex
    induction hex with
    | nil => exact fun value => by simp
    | cons c hex inductionHypothesis =>
      intro value
      have next := inductionHypothesis (16 * value + (hexValue c).getD 0)
      have small := digit c
      rw [List.foldl_cons, List.length_cons, Nat.pow_succ, Nat.mul_assoc]
      exact next.trans_le (Nat.mul_le_mul_left _ (by omega))
  have small := bound entry.hex 0
  rw [documented.four] at small
  have number : scanHex entry.hex ≤ 0xffff := by
    unfold scanHex
    simp only
    rw [if_pos (by omega)]
    exact (Nat.mod_le _ _).trans (by omega)
  unfold parseHexAddress
  rw [if_neg some', if_neg (by
    rw [Bool.not_eq_true', Bool.not_eq_false]
    exact List.all_eq_true.mpr documented.hex), if_neg (by omega)]

/-- The fields of a line: a constant is noticed, and the rest of an address is what it says. -/
theorem readFields_tail {comment : Text}
    (same : Fields.fields 0x2c isBlank comment = entry.comment.filter (· ≠ [])) :
    (entry.isConst = true → (readFields comment).isConst = true) ∧
      (entry.isConst = false → readFields comment =
        { isAddr := true, isConst := false, visibility := entry.visibility }) := by
  have others : ∀ f ∈ (entry.fields ++ entry.source.text).filter (· ≠ []),
      f ∉ [ascii "const", ascii "public", ascii "local"] := by
    intro f mem
    rcases List.mem_append.mp (List.mem_filter.mp mem).1 with field | source
    · exact documented.apart f field
    · have colon : (0x3a : Byte) ∈ f := by
        cases hSource : entry.source with
        | absent =>
          rw [hSource] at source
          exact absurd source List.not_mem_nil
        | label file line =>
          rw [hSource] at source
          obtain rfl := List.mem_singleton.mp source
          exact List.mem_append_right _ List.mem_cons_self
        | function file name n m line =>
          rw [hSource] at source
          obtain rfl := List.mem_singleton.mp source
          exact List.mem_append_right _ List.mem_cons_self
      intro listed
      have none : ∀ g ∈ [ascii "const", ascii "public", ascii "local"], (0x3a : Byte) ∉ g := by
        decide
      exact none f listed colon
  have split' : entry.comment.filter (· ≠ []) = entry.typeText :: entry.visibilityText ::
      (entry.fields ++ entry.source.text).filter (· ≠ []) := by
    have typed : entry.typeText ≠ [] := by
      unfold MapEntry.typeText
      split
      · decide
      · decide
    have seen : entry.visibilityText ≠ [] := by
      unfold MapEntry.visibilityText
      split
      · decide
      · decide
    unfold MapEntry.comment
    rw [List.filter_cons_of_pos (by rw [decide_eq_true_eq]; exact typed),
      List.filter_cons_of_pos (by rw [decide_eq_true_eq]; exact seen)]
  unfold readFields
  rw [foldl_readField]
  show (_ → (((Fields.fields 0x2c isBlank comment).foldl readField _).isConst = true)) ∧
    (_ → (Fields.fields 0x2c isBlank comment).foldl readField _ = _)
  rw [same, split', List.foldl_cons, List.foldl_cons]
  refine ⟨fun const => ?_, fun addr => ?_⟩
  · refine foldl_readField_const _ ?_
    unfold MapEntry.typeText MapEntry.visibilityText
    rw [const]
    cases entry.visibility <;> decide
  · have read : readField (readField
        { isAddr := false, isConst := false, visibility := .isPublic } entry.typeText)
        entry.visibilityText =
        { isAddr := true, isConst := false, visibility := entry.visibility } := by
      unfold MapEntry.typeText MapEntry.visibilityText
      rw [addr]
      cases entry.visibility <;> decide
    rw [read]
    exact foldl_readField_others _ rfl others

/-- The source location is found among the fields. -/
theorem extractSourceLocation_tail {comment : Text}
    (same : Fields.fields 0x2c isBlank comment = entry.comment.filter (· ≠ [])) :
    extractSourceLocation comment = entry.source.read := by
  have named : ∀ f ∈ entry.typeText :: entry.visibilityText :: entry.fields,
      sourceLocation f = none := by
    intro f mem
    refine sourceLocation_none ?_
    rcases List.mem_cons.mp mem with rfl | mem
    · unfold MapEntry.typeText
      split
      · decide
      · decide
    · rcases List.mem_cons.mp mem with rfl | mem
      · unfold MapEntry.visibilityText
        split
        · decide
        · decide
      · exact fun inside => (isNameChar_cases (documented.fields f mem _ inside)).2.2.1 rfl
  have shape : entry.comment =
      (entry.typeText :: entry.visibilityText :: entry.fields) ++ entry.source.text := rfl
  have none : ((entry.typeText :: entry.visibilityText :: entry.fields).filter
      (· ≠ [])).findSome? sourceLocation = none :=
    List.findSome?_eq_none_iff.mpr fun f mem => named f (List.mem_filter.mp mem).1
  unfold extractSourceLocation
  rw [same, shape, List.filter_append, List.findSome?_append, none, Option.none_or]
  have texts := sourceLocation_text documented.source
  cases hSource : entry.source with
  | absent => rfl
  | label file line =>
    rw [hSource] at texts
    have found := texts _ (List.mem_singleton.mpr rfl)
    have some' : file ++ 0x3a :: line ≠ [] :=
      List.append_ne_nil_of_right_ne_nil _ (List.cons_ne_nil _ _)
    show (([file ++ 0x3a :: line].filter (· ≠ [])).findSome? sourceLocation).getD ([], 0) = _
    rw [List.filter_cons_of_pos (by rw [decide_eq_true_eq]; exact some'), List.findSome?_cons,
      found]
    rfl
  | function file name n m line =>
    rw [hSource] at texts
    have found := texts _ (List.mem_singleton.mpr rfl)
    have some' : file ++ (ascii "::" ++ name ++ ascii "::" ++ n ++ ascii "::" ++ m) ++
        0x3a :: line ≠ [] := List.append_ne_nil_of_right_ne_nil _ (List.cons_ne_nil _ _)
    show (([file ++ (ascii "::" ++ name ++ ascii "::" ++ n ++ ascii "::" ++ m) ++
      0x3a :: line].filter (· ≠ [])).findSome? sourceLocation).getD ([], 0) = _
    rw [List.filter_cons_of_pos (by rw [decide_eq_true_eq]; exact some'), List.findSome?_cons,
      found]
    rfl

/-- A line gives its symbol, or is none if it is a constant. -/
theorem parseMapLine_line (cr : Bool) :
    parseMapLine (entry.front ++ (0x20 :: joinFields entry.comment ++
        if cr then [0x0d] else []).rdropWhile isBlank) =
      if entry.isConst then none else some entry.symbol := by
  obtain ⟨tail, tailEq⟩ : ∃ tail, tail = (0x20 :: joinFields entry.comment ++
      if cr then [0x0d] else []).rdropWhile isBlank := ⟨_, rfl⟩
  have fields := fields_tail documented cr
  rw [← tailEq] at fields ⊢
  have again : tail.rdropWhile isBlank = tail := by
    rw [tailEq]
    exact List.rdropWhile_idempotent _ _
  have trimmed : trim (entry.front ++ tail) = entry.front ++ tail := by
    rw [trim_line documented, again]
  obtain ⟨⟨c, front, frontEq, nameChar⟩, -⟩ := front_ends documented
  have proper : ¬ (entry.front ++ tail = [] ∨ (entry.front ++ tail).head? = some 0x3b) := by
    rw [frontEq]
    rintro (none | comment)
    · cases none
    · obtain rfl := Option.some.inj comment
      exact absurd nameChar (by decide)
  have name : trim (entry.name ++ List.replicate entry.padding 0x20) = entry.name := by
    have blanks : (List.replicate entry.padding (0x20 : Byte)).rdropWhile isBlank = [] :=
      List.rdropWhile_eq_nil_iff.mpr fun d mem => by
        rw [List.eq_of_mem_replicate mem]
        rfl
    refine (Fields.trim_append documented.named
      (fun d mem => (isNameChar_cases (documented.name d (List.mem_of_mem_head? mem))).1)
      (fun d mem => (isNameChar_cases (documented.name d (List.mem_of_getLast? mem))).1) _).trans ?_
    rw [blanks, List.append_nil]
  have comment : commentOf (ascii " ;" ++ tail) = trim tail := by
    unfold commentOf
    have halves := @TextSearch.cut_append Byte _ 0x3b [0x20] (by decide) tail
    rw [show ascii " ;" ++ tail = [0x20] ++ 0x3b :: tail from rfl, halves]
  obtain ⟨const, addr⟩ := readFields_tail documented fields
  unfold parseMapLine
  simp only [trimmed]
  rw [if_neg proper, definition_line documented, Option.bind_eq_bind, Option.bind_some]
  simp only
  rw [name, if_neg documented.named, takeWhile_hex documented, dropWhile_hex documented,
    parseHexAddress_hex documented, comment, Option.bind_eq_bind, Option.bind_some,
    extractSourceLocation_tail documented fields]
  cases isConst : entry.isConst with
  | true =>
    rw [if_pos (const isConst)]
    rfl
  | false =>
    rw [addr isConst]
    rfl

/-- The line of an entry has no line end in it. -/
theorem lineText_line (cr : Bool) : (0x0a : Byte) ∉ lineText (some entry, cr) := by
  have joined : ∀ fields : List Text, (∀ f ∈ fields, (0x0a : Byte) ∉ f) →
      (0x0a : Byte) ∉ joinFields fields := by
    intro fields
    induction fields with
    | nil => exact fun _ => List.not_mem_nil
    | cons f fields inductionHypothesis =>
      intro free
      have first := free f List.mem_cons_self
      have later := inductionHypothesis fun g mem => free g (List.mem_cons_of_mem _ mem)
      cases fields with
      | nil => exact first
      | cons g fields =>
        intro inside
        rcases List.mem_append.mp inside with here | inside
        · exact first here
        · rcases List.mem_cons.mp inside with comma | inside
          · exact absurd comma (by decide)
          · rcases List.mem_cons.mp inside with blank | inside
            · exact absurd blank (by decide)
            · exact later inside
  have comment := joined entry.comment fun f mem => (fields_comment documented f mem).line
  intro inside
  rcases List.mem_append.mp inside with render | ending
  · rcases List.mem_append.mp render with front | rest
    · simp only [MapEntry.front, List.mem_append] at front
      rcases front with name | blank | equals | hex | semicolon
      · exact (isNameChar_cases (documented.name _ name)).2.2.2.2.2 rfl
      · exact absurd (List.eq_of_mem_replicate blank) (by decide)
      · exact absurd equals (by decide)
      · exact (isxdigit_cases (documented.hex _ hex)).2.2.2 rfl
      · exact absurd semicolon (by decide)
    · rcases List.mem_cons.mp rest with blank | fields
      · exact absurd blank (by decide)
      · exact comment fields
  · cases cr with
    | true => exact absurd (List.mem_singleton.mp ending) (by decide)
    | false => exact absurd ending List.not_mem_nil

/-- What the loop sees of the line. -/
theorem trim_lineText (cr : Bool) : trim (lineText (some entry, cr)) =
    entry.front ++ (0x20 :: joinFields entry.comment ++
      if cr then [0x0d] else []).rdropWhile isBlank := by
  have shape : lineText (some entry, cr) =
      entry.front ++ (0x20 :: joinFields entry.comment ++ if cr then [0x0d] else []) := by
    show entry.front ++ (0x20 :: joinFields entry.comment) ++ _ = _
    rw [List.append_assoc]
  rw [shape, trim_line documented]

/-- The line of an entry adds its symbol, or counts as skipped. -/
theorem addLine_line (loading : MapLoading) (cr : Bool) :
    addLine loading (lineText (some entry, cr)) =
      if entry.isConst then { loading with skippedLines := loading.skippedLines + 1 }
      else
        { loading with
          result := { loading.result with symbols := loading.result.symbols ++ [entry.symbol] }
          parsedCount := loading.parsedCount + 1 } := by
  obtain ⟨⟨c, front, frontEq, nameChar⟩, -⟩ := front_ends documented
  have proper : ¬ (trim (lineText (some entry, cr)) = [] ∨
      (trim (lineText (some entry, cr))).head? = some 0x3b) := by
    rw [trim_lineText documented, frontEq]
    rintro (none | comment)
    · cases none
    · obtain rfl := Option.some.inj comment
      exact absurd nameChar (by decide)
  unfold addLine
  simp only
  rw [if_neg proper, trim_lineText documented, parseMapLine_line documented]
  cases entry.isConst <;> rfl

end Entry

/-! ## Files -/

theorem addLine_blank (loading : MapLoading) (cr : Bool) :
    addLine loading (lineText (none, cr)) = loading := by
  cases cr <;> rfl

/-- A file is split into its lines. -/
theorem split_fileText {lines : List MapLine}
    (documented : ∀ line ∈ lines, ∀ entry ∈ line.1, entry.Documented) :
    Fields.split 0x0a (fileText lines) = lines.map lineText := by
  induction lines with
  | nil => rfl
  | cons line lines inductionHypothesis =>
    have free : (0x0a : Byte) ∉ lineText line := by
      obtain ⟨none | entry, cr⟩ := line
      · cases cr <;> decide
      · exact lineText_line (documented _ List.mem_cons_self entry rfl) cr
    have shape : fileText (line :: lines) = lineText line ++ 0x0a :: fileText lines := by
      show lineText line ++ [0x0a] ++ fileText lines = _
      rw [List.append_assoc]
      rfl
    rw [shape, Fields.split_append free,
      inductionHypothesis fun l mem => documented l (List.mem_cons_of_mem _ mem), List.map_cons]

/-- The entries of a file that are addresses. -/
def addresses (lines : List MapLine) : List MapEntry :=
  (lines.filterMap Prod.fst).filter fun entry => !entry.isConst

/-- Those that are constants. -/
def constants (lines : List MapLine) : List MapEntry :=
  (lines.filterMap Prod.fst).filter MapEntry.isConst

/-- The loop adds the symbols of the addresses and counts the constants. -/
theorem foldl_addLine {lines : List MapLine} :
    (∀ line ∈ lines, ∀ entry ∈ line.1, entry.Documented) → ∀ loading : MapLoading,
      (lines.map lineText).foldl addLine loading =
        { loading with
          result := { loading.result with
            symbols := loading.result.symbols ++ (addresses lines).map MapEntry.symbol }
          parsedCount := loading.parsedCount + (addresses lines).length
          skippedLines := loading.skippedLines + (constants lines).length } := by
  induction lines with
  | nil =>
    intro _ loading
    show loading = _
    rw [show addresses [] = [] from rfl, List.map_nil, List.append_nil]
    rfl
  | cons line lines inductionHypothesis =>
    intro documented loading
    have later := inductionHypothesis fun l mem => documented l (List.mem_cons_of_mem _ mem)
    rw [List.map_cons, List.foldl_cons, later]
    obtain ⟨none | entry, cr⟩ := line
    · rw [addLine_blank]
      rfl
    · rw [addLine_line (documented _ List.mem_cons_self entry rfl)]
      have all : ((some entry, cr) :: lines).filterMap Prod.fst =
          entry :: lines.filterMap Prod.fst := rfl
      unfold addresses constants
      rw [all]
      cases isConst : entry.isConst with
      | true =>
        rw [if_pos rfl, List.filter_cons_of_neg (by rw [isConst]; decide),
          List.filter_cons_of_pos isConst, List.length_cons, Nat.add_right_comm]
        rfl
      | false =>
        rw [if_neg Bool.false_ne_true, List.filter_cons_of_pos (by rw [isConst]; decide),
          List.filter_cons_of_neg (by rw [isConst]; decide), List.map_cons, List.length_cons]
        simp only [List.append_assoc, List.singleton_append, Nat.add_assoc, Nat.add_comm 1]

/-- A documented file is recognised if nothing in it looks like the configuration of a keyboard. -/
theorem validate_fileText {lines : List MapLine}
    (documented : ∀ line ∈ lines, ∀ entry ∈ line.1, entry.Documented)
    (some' : lines.filterMap Prod.fst ≠ [])
    (other : ∀ text ∈ [ascii "[keyboard]", ascii "[mapping]", ascii "[keys]"],
      containsCI (fileText lines) text = false) :
    validateZ88dkFormat (fileText lines) = true := by
  obtain ⟨entry, mem⟩ := List.exists_mem_of_ne_nil _ some'
  obtain ⟨⟨first, cr⟩, lineMem, rfl⟩ := List.mem_filterMap.mp mem
  have entryDocumented := documented _ lineMem entry rfl
  have found : (trim (lineText (some entry, cr)) ≠ [] &&
      ((find (ascii "= $") (trim (lineText (some entry, cr)))).isSome ||
        (find (ascii "=$") (trim (lineText (some entry, cr)))).isSome)) = true := by
    obtain ⟨⟨c, front, frontEq, -⟩, -⟩ := front_ends entryDocumented
    rw [trim_lineText entryDocumented, find_line entryDocumented, frontEq]
    rfl
  unfold validateZ88dkFormat
  rw [split_fileText documented, other _ (by decide), other _ (by decide), other _ (by decide)]
  refine Bool.and_eq_true_iff.mpr ⟨List.any_eq_true.mpr ?_, rfl⟩
  exact ⟨_, List.mem_map_of_mem lineMem, found⟩

/-- Reading a documented file: its addresses become symbols in their order, and its constants are
counted. -/
theorem parseMapContent_fileText {lines : List MapLine}
    (documented : ∀ line ∈ lines, ∀ entry ∈ line.1, entry.Documented)
    (some' : lines.filterMap Prod.fst ≠ [])
    (other : ∀ text ∈ [ascii "[keyboard]", ascii "[mapping]", ascii "[keys]"],
      containsCI (fileText lines) text = false) :
    parseMapContent (fileText lines) =
      { result := { success := true, symbols := (addresses lines).map MapEntry.symbol }
        errorMessage := []
        parsedCount := (addresses lines).length
        skippedLines := (constants lines).length } := by
  unfold parseMapContent
  simp only
  rw [validate_fileText documented some' other, split_fileText documented,
    foldl_addLine documented, Bool.not_true, if_neg Bool.false_ne_true, List.nil_append,
    Nat.zero_add, Nat.zero_add]

/-- A constant, a blank line and an address, as the linker of z88dk lists them. -/
def gameLines : List MapLine :=
  let top : MapEntry :=
    { name := ascii "TOP", padding := 2, hex := ascii "0100", isConst := true
      visibility := .isLocal, fields := [[]], source := .label (ascii "g.s") (ascii "3") }
  let main : MapEntry :=
    { name := ascii "_m", padding := 3, hex := ascii "0A5F", isConst := false
      visibility := .isPublic, fields := [ascii "def"]
      source := .function (ascii "m.c") (ascii "m") (ascii "0") (ascii "1") (ascii "7") }
  [(some top, false), (none, true), (some main, true)]

theorem gameLines_documented : ∀ line ∈ gameLines, ∀ entry ∈ line.1, entry.Documented := by
  intro line mem entry here
  unfold gameLines at mem
  fin_cases mem
  · obtain rfl := Option.some.inj here
    exact ⟨by decide, by decide, by decide, by decide, by decide, by decide,
      ⟨by decide, by decide, _, _, rfl, by decide⟩, by decide, by decide⟩
  · cases here
  · obtain rfl := Option.some.inj here
    exact ⟨by decide, by decide, by decide, by decide, by decide, by decide,
      ⟨by decide, by decide, _, _, rfl, by decide⟩, by decide, by decide, by decide, by decide,
      by decide⟩

theorem gameLines_other : ∀ text ∈ [ascii "[keyboard]", ascii "[mapping]", ascii "[keys]"],
    containsCI (fileText gameLines) text = false := by decide +kernel

/-- The lines of a game. -/
theorem parseMapContent_fileText_game :
    parseMapContent (fileText gameLines) =
      { result := { success := true, symbols := (addresses gameLines).map MapEntry.symbol }
        errorMessage := []
        parsedCount := (addresses gameLines).length
        skippedLines := (constants gameLines).length } :=
  parseMapContent_fileText gameLines_documented (List.cons_ne_nil _ _) gameLines_other

end VectorDebugger.MapLoader

import VectorDebugger.Debugger.ProjectFile

/-!
# What a project file restores

The reader finds every field at its place as long as no string moves a boundary: strings that need
no escape, names and comments without a closing bracket or brace, and no string that is a key the
reader looks for later. Then a loaded project has the symbols, the regions, the enabled
breakpoints and the path that were saved.
-/

namespace VectorDebugger.ProjectFile

open TextSearch

/-! ### Strings that are written as they are -/

/-- The characters that are escaped. -/
def escapes : List Byte := [0x22, 0x5c, 0x0a, 0x0d, 0x09]

/-- No character needs an escape. -/
def Plain (s : Text) : Prop := ∀ c ∈ escapes, c ∉ s

theorem Plain.quote {s : Text} (plain : Plain s) : quote ∉ s := plain 0x22 (by decide)

theorem escapeChar_plain {c : Byte} (plain : c ∉ escapes) : escapeChar c = [c] := by
  have differs : ∀ special ∈ escapes, c ≠ special :=
    fun special listed same => plain (same ▸ listed)
  unfold escapeChar
  rw [if_neg (differs 0x22 (by decide)), if_neg (differs 0x5c (by decide)),
    if_neg (differs 0x0a (by decide)), if_neg (differs 0x0d (by decide)),
    if_neg (differs 0x09 (by decide))]

/-- An escape has two characters; only that of the quote has a quote. -/
theorem escapeChar_special {c : Byte} (special : c ∈ escapes) :
    (escapeChar c).length = 2 ∧ (c ≠ quote → quote ∉ escapeChar c) := by
  have all : ∀ d ∈ escapes, (escapeChar d).length = 2 ∧ (d ≠ quote → quote ∉ escapeChar d) := by
    decide
  exact all c special

theorem escapeJson_plain {s : Text} (plain : Plain s) : escapeJson s = s := by
  have single : ∀ c ∈ s, escapeChar c = [c] := fun c inside =>
    escapeChar_plain fun special => plain c special inside
  unfold escapeJson
  rw [List.flatMap_congr single]
  exact List.flatMap_singleton' s

/-- An address is written with digits and capital letters. -/
theorem addrToHex_range (addr : Word) : ∀ c ∈ addrToHex addr, 0x30 ≤ c ∧ c ≤ 0x46 := by
  have digit : ∀ n : Fin 16, 0x30 ≤ Disassembler.hexDigit n ∧ Disassembler.hexDigit n ≤ 0x46 := by
    decide
  have all : ∀ digits value : Nat, ∀ c ∈ Disassembler.fmtHex value digits, 0x30 ≤ c ∧ c ≤ 0x46 := by
    intro digits
    induction digits with
    | zero => exact fun _ _ inside => absurd inside List.not_mem_nil
    | succ digits inductionHypothesis =>
      intro value c inside
      obtain front | back := List.mem_append.mp inside
      · exact inductionHypothesis _ c front
      · rw [List.mem_singleton.mp back]
        exact digit ⟨value % 16, Nat.mod_lt _ (by decide)⟩
  exact all 4 addr.toNat

theorem addrToHex_free (addr : Word) {c : Byte} (outside : ¬ (0x30 ≤ c ∧ c ≤ 0x46)) :
    c ∉ addrToHex addr :=
  fun inside => outside (addrToHex_range addr c inside)

theorem addrToHex_ne (addr : Word) {key : Text} (letter : ∃ c ∈ key, ¬ (0x30 ≤ c ∧ c ≤ 0x46)) :
    addrToHex addr ≠ key := by
  obtain ⟨c, inside, outside⟩ := letter
  intro same
  exact addrToHex_free addr outside (same ▸ inside)

theorem hexToAddr_addrToHex (addr : Word) : hexToAddr (addrToHex addr) = some addr := by
  unfold hexToAddr addrToHex
  rw [(scanHex_fmtHex addr).1]
  exact scanned_bound addr

/-! ### Passing what is not the key -/

/-- A key of the format: no quote, no colon, no bracket, and no start that punctuation has. -/
def Keyword (key : Text) : Prop :=
  quote ∉ key ∧ 0x3a ∉ key ∧ 0x5b ∉ key ∧ key ≠ [] ∧
    ∀ c ∈ ascii ":, \n\x7d", key.head? ≠ some c

instance (key : Text) : Decidable (Keyword key) := inferInstanceAs (Decidable (_ ∧ _))

theorem Keyword.differs {key : Text} (keyword : Keyword key) (front : Text)
    (mark : ∃ c ∈ ascii ":, \n\x7d", front.head? = some c) (rest : Text) :
    ¬ key ++ [quote] <+: front ++ rest := by
  obtain ⟨c, mark, starts⟩ := mark
  obtain ⟨tail, rfl⟩ := List.head?_eq_some_iff.mp starts
  cases key with
  | nil => exact absurd rfl keyword.2.2.2.1
  | cons d key =>
    intro same
    have first := (List.cons_prefix_cons.mp same).1
    exact keyword.2.2.2.2 c mark (congrArg some first)

/-- A text that the search passes: it has no quote, and is not the key. -/
def Passed (key token : Text) : Prop := quote ∉ token ∧ token ≠ key

theorem seek_other {key token : Text} (keyword : Keyword key) (passed : Passed key token)
    {rest : Text} (differs : ¬ key ++ [quote] <+: rest) :
    seek (word quote key) (word quote token ++ rest) = seek (word quote key) rest := by
  have shape : word quote token ++ rest = quote :: (token ++ quote :: rest) := by
    unfold word
    rw [List.cons_append, List.append_assoc]
    rfl
  rw [shape, seek_token keyword.1 passed.1 passed.2, seek_mark differs]

/-- A member whose key and string are not the key is passed. -/
theorem seek_member {key name value : Text} (keyword : Keyword key) (nameOther : Passed key name)
    (valueOther : Passed key value) {rest : Text} (differs : ¬ key ++ [quote] <+: rest) :
    seek (word quote key) (member name value ++ rest) = seek (word quote key) rest := by
  unfold member
  rw [List.append_assoc, List.append_assoc,
    seek_other keyword nameOther (keyword.differs (ascii ": ") (by decide) _),
    seek_before (by decide), seek_other keyword valueOther differs]

/-- Members without the key are passed. -/
theorem seek_members {key : Text} (keyword : Keyword key) {fields : List (Text × Text)}
    (other : ∀ field ∈ fields, Passed key field.1 ∧ Passed key field.2) {rest : Text}
    (differs : ¬ key ++ [quote] <+: rest) :
    seek (word quote key) (members fields ++ rest) = seek (word quote key) rest := by
  induction fields with
  | nil => rfl
  | cons field fields inductionHypothesis =>
    have here := other field List.mem_cons_self
    have later := inductionHypothesis fun field listed =>
      other field (List.mem_cons_of_mem _ listed)
    unfold members
    rw [List.append_assoc, List.append_assoc]
    cases fields with
    | nil => exact seek_member keyword here.1 here.2 differs
    | cons next fields =>
      rw [if_neg (List.cons_ne_nil _ _),
        seek_member keyword here.1 here.2 (keyword.differs (ascii ", ") (by decide) _),
        seek_before (by decide), later]

theorem lines_cons (fields : List (Text × Text)) (objects : List (List (Text × Text))) :
    lines (fields :: objects) =
      ascii "        " ++ 0x7b :: (members fields ++ 0x7d ::
        ((if objects = [] then [] else ascii ",") ++ (ascii "\n" ++ lines objects))) := rfl

/-- Objects without the key are passed. -/
theorem seek_lines {key : Text} (keyword : Keyword key) {objects : List (List (Text × Text))}
    (other : ∀ fields ∈ objects, ∀ field ∈ fields, Passed key field.1 ∧ Passed key field.2)
    (rest : Text) :
    seek (word quote key) (lines objects ++ rest) = seek (word quote key) rest := by
  induction objects with
  | nil => rfl
  | cons fields objects inductionHypothesis =>
    have later := inductionHypothesis fun fields listed =>
      other fields (List.mem_cons_of_mem _ listed)
    have shape : lines (fields :: objects) ++ rest =
        ascii "        \x7b" ++ (members fields ++ ([0x7d] ++
          ((if objects = [] then [] else ascii ",") ++
            (ascii "\n" ++ (lines objects ++ rest))))) := by
      rw [lines_cons]
      simp only [List.append_assoc, List.cons_append, List.nil_append]
      rfl
    have separator : quote ∉ (if objects = [] then [] else ascii ",") := by
      split
      · exact List.not_mem_nil
      · decide
    rw [shape, seek_before (by decide),
      seek_members keyword (other fields List.mem_cons_self)
        (keyword.differs [0x7d] (by decide) _),
      seek_before (by decide), seek_before separator, seek_before (by decide), later]

/-- An array, cut where the searches pass it. -/
theorem objectList_append (array : Text) (objects : List (List (Text × Text))) (rest : Text) :
    objectList array objects ++ rest =
      word quote array ++ (ascii ": [\n" ++ (lines objects ++ (ascii "    ]" ++ rest))) := by
  unfold objectList
  simp only [List.append_assoc, List.cons_append]
  rfl

/-- An array without the key is passed. -/
theorem seek_objectList {key array : Text} (keyword : Keyword key) (named : Passed key array)
    {objects : List (List (Text × Text))}
    (other : ∀ fields ∈ objects, ∀ field ∈ fields, Passed key field.1 ∧ Passed key field.2)
    (rest : Text) :
    seek (word quote key) (objectList array objects ++ rest) = seek (word quote key) rest := by
  rw [objectList_append, seek_other keyword named (keyword.differs (ascii ": [\n") (by decide) _),
    seek_before (by decide), seek_lines keyword other, seek_before (by decide)]

theorem seek_header {key romPath : Text} (keyword : Keyword key)
    (version : Passed key (ascii "version")) (rom : Passed key (ascii "rom_path"))
    (path : Passed key (escapeJson romPath)) (rest : Text) :
    seek (word quote key) (header romPath ++ rest) = seek (word quote key) rest := by
  unfold header
  rw [List.append_assoc, List.append_assoc, List.append_assoc, List.append_assoc,
    seek_before (by decide),
    seek_other keyword version (keyword.differs (ascii ": 1,\n    ") (by decide) _),
    seek_before (by decide),
    seek_member keyword rom path (keyword.differs (ascii ",\n    ") (by decide) _),
    seek_before (by decide)]

/-! ### The fields of an object -/

/-- An object of an array. -/
def objectText (fields : List (Text × Text)) : Text := 0x7b :: (members fields ++ [0x7d])

theorem seek_leading {key : Text} (keyword : Keyword key) {leading : List (Text × Text)}
    (other : ∀ field ∈ leading, Passed key field.1 ∧ Passed key field.2) (field : Text × Text)
    (following : List (Text × Text)) (rest : Text) :
    seek (word quote key) (members (leading ++ field :: following) ++ rest) =
      seek (word quote key) (members (field :: following) ++ rest) := by
  induction leading with
  | nil => rfl
  | cons first leading inductionHypothesis =>
    have here := other first List.mem_cons_self
    have later := inductionHypothesis fun field listed =>
      other field (List.mem_cons_of_mem _ listed)
    have more : leading ++ field :: following ≠ [] :=
      List.append_ne_nil_of_right_ne_nil _ (List.cons_ne_nil _ _)
    have shape : members (first :: leading ++ field :: following) ++ rest =
        member first.1 first.2 ++ (ascii ", " ++ (members (leading ++ field :: following) ++ rest))
        := by
      show (member first.1 first.2 ++ ((if leading ++ field :: following = [] then []
        else ascii ", ") ++ members (leading ++ field :: following))) ++ rest = _
      rw [if_neg more, List.append_assoc, List.append_assoc]
    rw [shape, seek_member keyword here.1 here.2 (keyword.differs (ascii ", ") (by decide) _),
      seek_before (by decide), later]

theorem word_free {c : Byte} (other : c ≠ quote) {s : Text} (free : c ∉ s) : c ∉ word quote s := by
  intro inside
  obtain first | inside := List.mem_cons.mp inside
  · exact other first
  · obtain inside | last := List.mem_append.mp inside
    · exact free inside
    · exact other (List.mem_singleton.mp last)

/-- A search for a colon ends at the first member. -/
theorem cut_member {front key value : Text} (frontFree : 0x3a ∉ front) (keyFree : 0x3a ∉ key)
    (after : Text) :
    cut 0x3a (front ++ (member key value ++ after)) =
      some (front ++ word quote key, [0x20] ++ quote :: (value ++ quote :: after)) := by
  have shape : front ++ (member key value ++ after) =
      (front ++ word quote key) ++ 0x3a :: ([0x20] ++ quote :: (value ++ quote :: after)) := by
    unfold member word
    simp only [List.append_assoc, List.cons_append, List.nil_append]
    rfl
  have free : 0x3a ∉ front ++ word quote key := by
    intro inside
    obtain inside | inside := List.mem_append.mp inside
    · exact frontFree inside
    · exact word_free (by decide) keyFree inside
  rw [shape, cut_append free]

theorem quotedText_value {value : Text} (free : quote ∉ value) (after : Text) :
    quotedText ([0x20] ++ quote :: (value ++ quote :: after)) = some value := by
  unfold quotedText
  rw [cut_append (by decide), Option.bind_some, cut_append free]
  rfl

/-- The string of the next member is read, whatever stands before its colon. -/
theorem quotedText_member {front key value : Text} (frontFree : 0x3a ∉ front)
    (keyFree : 0x3a ∉ key) (valueFree : quote ∉ value) (after obj : Text) :
    quotedText (((cut 0x3a (front ++ (member key value ++ after))).map (·.2)).getD obj) =
      some value := by
  rw [cut_member frontFree keyFree, Option.map_some, Option.getD_some]
  exact quotedText_value valueFree after

theorem members_cons (field : Text × Text) (fields : List (Text × Text)) :
    members (field :: fields) =
      member field.1 field.2 ++ ((if fields = [] then [] else ascii ", ") ++ members fields) := rfl

/-- A field is read where no earlier field has its key or is it. -/
theorem fieldText_found {key value : Text} (keyword : Keyword key) (valueFree : quote ∉ value)
    {leading : List (Text × Text)}
    (other : ∀ field ∈ leading, Passed key field.1 ∧ Passed key field.2)
    (following : List (Text × Text)) :
    fieldText (objectText (leading ++ (key, value) :: following)) key = some value := by
  have shape : members ((key, value) :: following) ++ [0x7d] =
      word quote key ++ (ascii ": " ++ (word quote value ++
        ((if following = [] then [] else ascii ", ") ++ (members following ++ [0x7d])))) := by
    rw [members_cons]
    unfold member
    simp only [List.append_assoc]
  have brace : seek (word quote key) (objectText (leading ++ (key, value) :: following)) =
      seek (word quote key) (members (leading ++ (key, value) :: following) ++ [0x7d]) :=
    @seek_before Byte _ quote [0x7b] (by decide) key _
  have read := @quotedText_member [] key value List.not_mem_nil keyword.2.1 valueFree
    ((if following = [] then [] else ascii ", ") ++ (members following ++ [0x7d]))
    (objectText (leading ++ (key, value) :: following))
  unfold fieldText
  rw [brace, seek_leading keyword other, shape, seek_word, Option.bind_some]
  unfold member at read
  simpa only [List.nil_append, List.append_assoc] using read

/-- A string that is the key makes the reader take the string of the member that follows. -/
theorem fieldText_echo {key name next value : Text} (keyword : Keyword key)
    (named : Passed key name) (nextFree : 0x3a ∉ next) (valueFree : quote ∉ value)
    {leading : List (Text × Text)}
    (other : ∀ field ∈ leading, Passed key field.1 ∧ Passed key field.2)
    (following : List (Text × Text)) :
    fieldText (objectText (leading ++ (name, key) :: (next, value) :: following)) key =
      some value := by
  have brace :
      seek (word quote key) (objectText (leading ++ (name, key) :: (next, value) :: following)) =
        seek (word quote key)
          (members (leading ++ (name, key) :: (next, value) :: following) ++ [0x7d]) :=
    @seek_before Byte _ quote [0x7b] (by decide) key _
  have shape : members ((name, key) :: (next, value) :: following) ++ [0x7d] =
      word quote name ++ (ascii ": " ++ (word quote key ++ (ascii ", " ++ (member next value ++
        ((if following = [] then [] else ascii ", ") ++ (members following ++ [0x7d])))))) := by
    rw [members_cons, members_cons, if_neg (List.cons_ne_nil _ _)]
    unfold member
    simp only [List.append_assoc]
  have front : 0x3a ∉ word quote key ++ ascii ", " := by
    intro inside
    obtain inside | inside := List.mem_append.mp inside
    · exact word_free (by decide) keyword.2.1 inside
    · exact absurd inside (by decide)
  have read := quotedText_member front nextFree valueFree
    ((if following = [] then [] else ascii ", ") ++ (members following ++ [0x7d]))
    (objectText (leading ++ (name, key) :: (next, value) :: following))
  rw [List.append_assoc] at read
  unfold fieldText
  rw [brace, seek_leading keyword other, shape,
    seek_other keyword named (keyword.differs (ascii ": ") (by decide) _),
    seek_before (by decide), seek_word, Option.bind_some]
  exact read

/-! ### Arrays -/

/-- A character that stands in no key and no string stands in no member. -/
theorem members_free {c : Byte} (punctuation : c ∉ ascii "\": ,") {fields : List (Text × Text)}
    (free : ∀ field ∈ fields, c ∉ field.1 ∧ c ∉ field.2) : c ∉ members fields := by
  have marks : ∀ d ∈ quote :: ascii ": " ++ ascii ", ", d ∈ ascii "\": ," := by decide
  have other : c ≠ quote := fun same => punctuation (same ▸ by decide)
  have colon : c ∉ ascii ": " := fun inside =>
    punctuation (marks c (List.mem_cons_of_mem _ (List.mem_append_left _ inside)))
  have comma : c ∉ ascii ", " := fun inside =>
    punctuation (marks c (List.mem_cons_of_mem _ (List.mem_append_right _ inside)))
  induction fields with
  | nil => exact List.not_mem_nil
  | cons field fields inductionHypothesis =>
    have here := free field List.mem_cons_self
    have later := inductionHypothesis fun field listed => free field (List.mem_cons_of_mem _ listed)
    have separator : c ∉ (if fields = [] then [] else ascii ", ") := by
      split
      · exact List.not_mem_nil
      · exact comma
    rw [members_cons]
    unfold member
    simp only [List.mem_append, not_or]
    exact ⟨⟨word_free other here.1, colon, word_free other here.2⟩, separator, later⟩

/-- A character that stands in no object stands in no list of them. -/
theorem lines_free {c : Byte} (punctuation : c ∉ ascii " \x7b\x7d,\n")
    {objects : List (List (Text × Text))} (free : ∀ fields ∈ objects, c ∉ members fields) :
    c ∉ lines objects := by
  have marks : ∀ d ∈ [ascii "        ", [0x7b], [0x7d], ascii ",", ascii "\n"],
      ∀ e ∈ d, e ∈ ascii " \x7b\x7d,\n" := by decide
  have mark : ∀ d ∈ [ascii "        ", [0x7b], [0x7d], ascii ",", ascii "\n"], c ∉ d :=
    fun d listed inside => punctuation (marks d listed c inside)
  induction objects with
  | nil => exact List.not_mem_nil
  | cons fields objects inductionHypothesis =>
    have later := inductionHypothesis fun fields listed =>
      free fields (List.mem_cons_of_mem _ listed)
    have separator : c ∉ (if objects = [] then [] else ascii ",") := by
      split
      · exact List.not_mem_nil
      · exact mark _ (by simp)
    have opening : c ≠ 0x7b := fun same => mark [0x7b] (by simp) (List.mem_singleton.mpr same)
    have closing : c ≠ 0x7d := fun same => mark [0x7d] (by simp) (List.mem_singleton.mpr same)
    rw [lines_cons]
    simp only [List.mem_append, List.mem_cons, not_or]
    exact ⟨mark _ (by simp), opening, free fields List.mem_cons_self, closing, separator,
      mark _ (by simp), later⟩

/-- The reader takes the objects of a list apart. -/
theorem blocks_lines {objects : List (List (Text × Text))}
    (closed : ∀ fields ∈ objects, 0x7d ∉ members fields) {after : Text} (last : 0x7b ∉ after) :
    ∀ {fuel : Nat} {before : Text}, objects.length ≤ fuel → 0x7b ∉ before →
      blocks 0x7b 0x7d fuel (before ++ (lines objects ++ after)) = objects.map members := by
  induction objects with
  | nil =>
    intro fuel before _ free
    refine blocks_nil _ (fun inside => ?_) fuel
    obtain inside | inside := List.mem_append.mp inside
    · exact free inside
    · exact last inside
  | cons fields objects inductionHypothesis =>
    intro fuel before enough free
    obtain ⟨fuel, rfl⟩ := Nat.exists_eq_add_of_le' enough
    have separator : 0x7b ∉ (if objects = [] then [] else ascii ",") ++ ascii "\n" := by
      split
      · decide
      · decide
    have shape : before ++ (lines (fields :: objects) ++ after) =
        (before ++ ascii "        ") ++ 0x7b :: (members fields ++ 0x7d ::
          (((if objects = [] then [] else ascii ",") ++ ascii "\n") ++
            (lines objects ++ after))) := by
      rw [lines_cons]
      simp only [List.append_assoc, List.cons_append]
    have front : 0x7b ∉ before ++ ascii "        " := by
      intro inside
      obtain inside | inside := List.mem_append.mp inside
      · exact free inside
      · exact absurd inside (by decide)
    have later := @inductionHypothesis
      (fun fields listed => closed fields (List.mem_cons_of_mem _ listed))
      (fuel + objects.length) _ (Nat.le_add_left _ _) separator
    rw [shape, List.length_cons, ← Nat.add_assoc,
      blocks_cons front (closed fields List.mem_cons_self), later]
    rfl

theorem length_lines (objects : List (List (Text × Text))) :
    objects.length ≤ (lines objects).length := by
  induction objects with
  | nil => exact Nat.le_refl 0
  | cons fields objects inductionHypothesis =>
    rw [lines_cons]
    simp only [List.length_append, List.length_cons]
    omega

/-- The text between the brackets of a list. -/
def listText (objects : List (List (Text × Text))) : Text :=
  ascii "\n" ++ (lines objects ++ ascii "    ")

theorem objects_listText {list : List (List (Text × Text))}
    (closed : ∀ fields ∈ list, 0x7d ∉ members fields) :
    objects (listText list) = list.map objectText := by
  have enough : list.length ≤ (listText list).length := by
    have inner := length_lines list
    unfold listText
    simp only [List.length_append]
    omega
  unfold objects
  rw [show blocks 0x7b 0x7d (listText list).length (listText list) = list.map members from
    blocks_lines closed (by decide) enough (by decide), List.map_map]
  rfl

/-- The array that follows the first occurrence of its key is read. -/
theorem sectionText_list {content key front array : Text} {list : List (List (Text × Text))}
    {rest : Text}
    (found : seek (word quote key) content = some (front ++ (objectList array list ++ rest)))
    (frontFree : 0x5b ∉ front) (arrayFree : 0x5b ∉ array) (closed : 0x5d ∉ lines list) :
    sectionText content key = some (listText list) := by
  have shape : front ++ (objectList array list ++ rest) =
      (front ++ (word quote array ++ ascii ": ")) ++ 0x5b :: (listText list ++ 0x5d :: rest) := by
    unfold objectList listText
    simp only [List.append_assoc, List.cons_append, List.nil_append]
  have opening : 0x5b ∉ front ++ (word quote array ++ ascii ": ") := by
    simp only [List.mem_append, not_or]
    exact ⟨frontFree, word_free (by decide) arrayFree, by decide⟩
  have closing : 0x5d ∉ listText list := by
    unfold listText
    simp only [List.mem_append, not_or]
    exact ⟨by decide, closed, by decide⟩
  unfold sectionText
  rw [found, shape, Option.bind_some, cut_append opening, Option.bind_some, cut_append closing]
  rfl

/-! ### The sections of a file -/

theorem seek_array (key : Text) (list : List (List (Text × Text))) (rest : Text) :
    seek (word quote key) (objectList key list ++ rest) = some (objectList key list ++ rest) := by
  unfold objectList
  rw [List.append_assoc]
  exact seek_word quote key _

/-- The symbols are found, even when the path of the program is their key. -/
theorem seek_symbols {romPath : Text} (plain : Plain romPath)
    (list : List (List (Text × Text))) (rest : Text) :
    ∃ front, 0x5b ∉ front ∧
      seek (word quote (ascii "symbols"))
        (header romPath ++ (objectList (ascii "symbols") list ++ rest)) =
          some (front ++ (objectList (ascii "symbols") list ++ rest)) := by
  have keyword : Keyword (ascii "symbols") := by decide
  by_cases same : romPath = ascii "symbols"
  · refine ⟨word quote (ascii "symbols") ++ ascii ",\n    ", by decide, ?_⟩
    rw [same]
    unfold header member
    rw [show escapeJson (ascii "symbols") = ascii "symbols" from rfl]
    simp only [List.append_assoc]
    rw [seek_before (by decide),
      seek_other keyword ⟨by decide, by decide⟩
        (keyword.differs (ascii ": 1,\n    ") (by decide) _),
      seek_before (by decide),
      seek_other keyword ⟨by decide, by decide⟩ (keyword.differs (ascii ": ") (by decide) _),
      seek_before (by decide), seek_word]
  · refine ⟨[], List.not_mem_nil, ?_⟩
    rw [seek_header keyword ⟨by decide, by decide⟩ ⟨by decide, by decide⟩
      (by rw [escapeJson_plain plain]; exact ⟨plain.quote, same⟩), seek_array]
    rfl

/-- No string of the symbols is the key. -/
def Unused (key : Text) (symbols : List DebugSymbol) : Prop :=
  ∀ sym ∈ symbols, sym.name ≠ key ∧ sym.comment ≠ key

/-- What the reader can take from a symbol. -/
structure ReadableSymbol (sym : DebugSymbol) : Prop where
  /-- The name needs no escape. -/
  name : Plain sym.name
  /-- The comment needs no escape. -/
  comment : Plain sym.comment
  /-- The name ends neither the list nor the object. -/
  nameOpen : 0x5d ∉ sym.name ∧ 0x7d ∉ sym.name
  /-- The comment ends neither the list nor the object. -/
  commentOpen : 0x5d ∉ sym.comment ∧ 0x7d ∉ sym.comment
  /-- A name that is the key of the comment makes the reader take the type for it. -/
  shadow : sym.name = ascii "comment" → sym.comment = symbolTypeText sym.type

theorem symbolTypeText_cases (type : SymbolType) :
    symbolTypeText type = ascii "function" ∨ symbolTypeText type = ascii "label" := by
  cases type with
  | function => exact .inl rfl
  | label => exact .inr rfl

/-- A mark stands in no field of a symbol when it stands in no string of it. -/
theorem symbolFields_free {sym : DebugSymbol} (name : Plain sym.name) (comment : Plain sym.comment)
    {c : Byte} (mark : c ∈ ([0x22, 0x5b, 0x5d, 0x7d] : List Byte)) (nameFree : c ∉ sym.name)
    (commentFree : c ∉ sym.comment) : ∀ field ∈ symbolFields sym, c ∉ field.1 ∧ c ∉ field.2 := by
  have fixed : ∀ d ∈ ([0x22, 0x5b, 0x5d, 0x7d] : List Byte), ¬ (0x30 ≤ d ∧ d ≤ 0x46) ∧
      ∀ text ∈ [ascii "address", ascii "name", ascii "type", ascii "comment", ascii "function",
        ascii "label"], d ∉ text := by decide
  have texts := (fixed c mark).2
  have type : c ∉ symbolTypeText sym.type := by
    obtain same | same := symbolTypeText_cases sym.type
    · exact same ▸ texts _ (by simp)
    · exact same ▸ texts _ (by simp)
  unfold symbolFields
  rw [escapeJson_plain name, escapeJson_plain comment]
  simp only [List.forall_mem_cons]
  exact ⟨⟨texts _ (by simp), addrToHex_free _ (fixed c mark).1⟩, ⟨texts _ (by simp), nameFree⟩,
    ⟨texts _ (by simp), type⟩, ⟨texts _ (by simp), commentFree⟩,
    fun _ none => absurd none List.not_mem_nil⟩

/-- A key that no fixed text of a symbol has, and no string of it, is in no field of it. -/
theorem symbolFields_passed {sym : DebugSymbol} (name : Plain sym.name)
    (comment : Plain sym.comment) {key : Text} (letter : ∃ c ∈ key, ¬ (0x30 ≤ c ∧ c ≤ 0x46))
    (fixed : key ∉ [ascii "address", ascii "name", ascii "type", ascii "comment",
      ascii "function", ascii "label"])
    (nameOther : sym.name ≠ key) (commentOther : sym.comment ≠ key) :
    ∀ field ∈ symbolFields sym, Passed key field.1 ∧ Passed key field.2 := by
  have free := symbolFields_free name comment (show (0x22 : Byte) ∈ _ by decide) name.quote
    comment.quote
  have other : ∀ field ∈ symbolFields sym, field.1 ≠ key ∧ field.2 ≠ key := by
    have texts : ∀ text ∈ [ascii "address", ascii "name", ascii "type", ascii "comment",
        ascii "function", ascii "label"], text ≠ key :=
      fun text listed same => fixed (same ▸ listed)
    have type : symbolTypeText sym.type ≠ key := by
      obtain same | same := symbolTypeText_cases sym.type
      · exact same ▸ texts _ (by simp)
      · exact same ▸ texts _ (by simp)
    unfold symbolFields
    rw [escapeJson_plain name, escapeJson_plain comment]
    simp only [List.forall_mem_cons]
    exact ⟨⟨texts _ (by simp), addrToHex_ne _ letter⟩, ⟨texts _ (by simp), nameOther⟩,
      ⟨texts _ (by simp), type⟩, ⟨texts _ (by simp), commentOther⟩,
      fun _ none => absurd none List.not_mem_nil⟩
  exact fun field listed => ⟨⟨(free field listed).1, (other field listed).1⟩,
    (free field listed).2, (other field listed).2⟩

theorem addrToHex_passed (addr : Word) {key : Text}
    (letter : ∃ c ∈ key, ¬ (0x30 ≤ c ∧ c ≤ 0x46)) : Passed key (addrToHex addr) :=
  ⟨addrToHex_free addr (by decide), addrToHex_ne addr letter⟩

/-- The fields of a symbol are read as they were written. -/
theorem symbolFields_read {sym : DebugSymbol} (readable : ReadableSymbol sym) :
    fieldText (objectText (symbolFields sym)) (ascii "address") = some (addrToHex sym.address) ∧
    fieldText (objectText (symbolFields sym)) (ascii "name") = some sym.name ∧
    fieldText (objectText (symbolFields sym)) (ascii "type") = some (symbolTypeText sym.type) ∧
    fieldText (objectText (symbolFields sym)) (ascii "comment") = some sym.comment := by
  have type : quote ∉ symbolTypeText sym.type := by
    obtain same | same := symbolTypeText_cases sym.type
    · exact same ▸ by decide
    · exact same ▸ by decide
  have address : ∀ key, (∃ c ∈ key, ¬ (0x30 ≤ c ∧ c ≤ 0x46)) → ascii "address" ≠ key →
      Passed key (ascii "address") ∧ Passed key (addrToHex sym.address) :=
    fun key letter other => ⟨⟨by decide, other⟩, addrToHex_passed _ letter⟩
  have nameType : Passed (ascii "type") (ascii "name") := ⟨by decide, by decide⟩
  have nameComment : Passed (ascii "comment") (ascii "name") := ⟨by decide, by decide⟩
  have typeComment : Passed (ascii "comment") (ascii "type") := ⟨by decide, by decide⟩
  unfold symbolFields
  rw [escapeJson_plain readable.name, escapeJson_plain readable.comment]
  refine ⟨?_, ?_, ?_, ?_⟩
  · exact @fieldText_found _ _ (by decide) (addrToHex_free _ (by decide)) []
      (List.forall_mem_nil _) _
  · exact @fieldText_found _ _ (by decide) readable.name.quote
      [(ascii "address", addrToHex sym.address)]
      (List.forall_mem_singleton.mpr (address _ (by decide) (by decide))) _
  · by_cases same : sym.name = ascii "type"
    · rw [same]
      exact @fieldText_echo _ _ _ _ (by decide) ⟨by decide, by decide⟩ (by decide) type
        [(ascii "address", addrToHex sym.address)]
        (List.forall_mem_singleton.mpr (address _ (by decide) (by decide))) _
    · exact @fieldText_found _ _ (by decide) type
        [(ascii "address", addrToHex sym.address), (ascii "name", sym.name)]
        (List.forall_mem_cons.mpr ⟨address _ (by decide) (by decide),
          List.forall_mem_singleton.mpr ⟨nameType, readable.name.quote, same⟩⟩) _
  · by_cases same : sym.name = ascii "comment"
    · rw [readable.shadow same, same]
      exact @fieldText_echo _ _ _ _ (by decide) ⟨by decide, by decide⟩ (by decide) type
        [(ascii "address", addrToHex sym.address)]
        (List.forall_mem_singleton.mpr (address _ (by decide) (by decide))) _
    · have typeOther : symbolTypeText sym.type ≠ ascii "comment" := by
        obtain other | other := symbolTypeText_cases sym.type
        · exact other ▸ by decide
        · exact other ▸ by decide
      exact @fieldText_found _ _ (by decide) readable.comment.quote
        [(ascii "address", addrToHex sym.address), (ascii "name", sym.name),
          (ascii "type", symbolTypeText sym.type)]
        (List.forall_mem_cons.mpr ⟨address _ (by decide) (by decide),
          List.forall_mem_cons.mpr ⟨⟨nameComment, readable.name.quote, same⟩,
            List.forall_mem_singleton.mpr ⟨typeComment, type, typeOther⟩⟩⟩) _

/-! ### Regions -/

theorem regionTypeText_cases (type : MemoryRegionType) :
    regionTypeText type ∈ [ascii "code", ascii "data", ascii "unknown"] := by
  cases type with
  | unknown => decide
  | code => decide
  | data => decide

/-- The closing marks and the quote stand in no field of a region. -/
theorem regionFields_free (reg : MemoryRegion) {c : Byte}
    (mark : c ∈ ([0x22, 0x5d, 0x7d] : List Byte)) :
    ∀ field ∈ regionFields reg, c ∉ field.1 ∧ c ∉ field.2 := by
  have fixed : ∀ d ∈ ([0x22, 0x5d, 0x7d] : List Byte), ¬ (0x30 ≤ d ∧ d ≤ 0x46) ∧
      (∀ text ∈ [ascii "start", ascii "end", ascii "type", ascii "comment"], d ∉ text) ∧
        ∀ text ∈ [ascii "code", ascii "data", ascii "unknown"], d ∉ text := by decide
  obtain ⟨digit, texts, types⟩ := fixed c mark
  unfold regionFields
  simp only [List.forall_mem_cons]
  exact ⟨⟨texts _ (by simp), addrToHex_free _ digit⟩, ⟨texts _ (by simp), addrToHex_free _ digit⟩,
    ⟨texts _ (by simp), types _ (regionTypeText_cases reg.type)⟩,
    ⟨texts _ (by simp), List.not_mem_nil⟩, fun _ none => absurd none List.not_mem_nil⟩

/-- A key that no fixed text of a region has is in no field of it. -/
theorem regionFields_passed (reg : MemoryRegion) {key : Text}
    (letter : ∃ c ∈ key, ¬ (0x30 ≤ c ∧ c ≤ 0x46))
    (fixed : key ∉ [ascii "start", ascii "end", ascii "type", ascii "comment", ascii "code",
      ascii "data", ascii "unknown"]) :
    ∀ field ∈ regionFields reg, Passed key field.1 ∧ Passed key field.2 := by
  have free := regionFields_free reg (show (0x22 : Byte) ∈ _ by decide)
  have other : ∀ field ∈ regionFields reg, field.1 ≠ key ∧ field.2 ≠ key := by
    have texts : ∀ text ∈ [ascii "start", ascii "end", ascii "type", ascii "comment",
        ascii "code", ascii "data", ascii "unknown"], text ≠ key :=
      fun text listed same => fixed (same ▸ listed)
    have types := List.mem_append_right [ascii "start", ascii "end", ascii "type", ascii "comment"]
      (regionTypeText_cases reg.type)
    have nonempty : [] ≠ key := by
      obtain ⟨c, inside, _⟩ := letter
      rintro rfl
      exact List.not_mem_nil inside
    unfold regionFields
    simp only [List.forall_mem_cons]
    exact ⟨⟨texts _ (by simp), addrToHex_ne _ letter⟩, ⟨texts _ (by simp), addrToHex_ne _ letter⟩,
      ⟨texts _ (by simp), texts _ types⟩, ⟨texts _ (by simp), nonempty⟩,
      fun _ none => absurd none List.not_mem_nil⟩
  exact fun field listed => ⟨⟨(free field listed).1, (other field listed).1⟩,
    (free field listed).2, (other field listed).2⟩

/-- The fields of a region are read as they were written. -/
theorem regionFields_read (reg : MemoryRegion) :
    fieldText (objectText (regionFields reg)) (ascii "start") = some (addrToHex reg.start) ∧
    fieldText (objectText (regionFields reg)) (ascii "end") = some (addrToHex reg.last) ∧
    fieldText (objectText (regionFields reg)) (ascii "type") = some (regionTypeText reg.type) := by
  have startEnd : Passed (ascii "end") (ascii "start") := ⟨by decide, by decide⟩
  have startType : Passed (ascii "type") (ascii "start") := ⟨by decide, by decide⟩
  have endType : Passed (ascii "type") (ascii "end") := ⟨by decide, by decide⟩
  have type : ∀ text ∈ [ascii "code", ascii "data", ascii "unknown"], quote ∉ text := by decide
  refine ⟨?_, ?_, ?_⟩
  · exact @fieldText_found _ _ (by decide) (addrToHex_free _ (by decide)) []
      (List.forall_mem_nil _) _
  · exact @fieldText_found _ _ (by decide) (addrToHex_free _ (by decide))
      [(ascii "start", addrToHex reg.start)]
      (List.forall_mem_singleton.mpr ⟨startEnd, addrToHex_passed _ (by decide)⟩) _
  · exact @fieldText_found _ _ (by decide) (type _ (regionTypeText_cases reg.type))
      [(ascii "start", addrToHex reg.start), (ascii "end", addrToHex reg.last)]
      (List.forall_mem_cons.mpr ⟨⟨startType, addrToHex_passed _ (by decide)⟩,
        List.forall_mem_singleton.mpr ⟨endType, addrToHex_passed _ (by decide)⟩⟩) _

theorem fieldAddr_of_read {obj key : Text} {addr : Word}
    (read : fieldText obj key = some (addrToHex addr)) : fieldAddr obj key = addr := by
  unfold fieldAddr
  rw [read, Option.bind_some, hexToAddr_addrToHex]
  rfl

/-- A written region is set again. -/
theorem loadRegion_written (table : XrefTable) (reg : MemoryRegion) :
    loadRegion table (objectText (regionFields reg)) =
      (table.setRegion reg.start reg.last reg.type).1 := by
  have read := regionFields_read reg
  have type : regionTypeOf (some (regionTypeText reg.type)) = reg.type := by
    cases reg.type with
    | unknown => decide
    | code => decide
    | data => decide
  unfold loadRegion
  rw [fieldAddr_of_read read.1, fieldAddr_of_read read.2.1, read.2.2, type]

end VectorDebugger.ProjectFile

namespace VectorDebugger

/-- The regions of a database: none is empty, and each ends before the next starts. -/
structure RegionsOrdered (regions : List MemoryRegion) : Prop where
  /-- None is empty. -/
  bounds : ∀ reg ∈ regions, reg.start ≤ reg.last
  /-- Each ends before the later ones start. -/
  order : regions.Pairwise fun before after => before.last < after.start

namespace XrefTable

/-- A region after all others is appended. -/
theorem setRegion_append {table : XrefTable} {reg : MemoryRegion}
    (ordered : RegionsOrdered (table.regions ++ [reg])) :
    (table.setRegion reg.start reg.last reg.type).1.regions = table.regions ++ [reg] := by
  have bound : reg.start ≤ reg.last :=
    ordered.bounds reg (List.mem_append_right _ (List.mem_singleton_self _))
  have before : ∀ known ∈ table.regions, known.last < reg.start := fun known listed =>
    (List.pairwise_append.mp ordered.order).2.2 known listed reg (List.mem_singleton_self _)
  have outside : table.regions.flatMap (·.outside reg.start reg.last) = table.regions := by
    rw [List.flatMap_congr fun known listed => show known.outside reg.start reg.last = [known] from
      if_pos (.inl (before known listed))]
    exact List.flatMap_singleton' _
  have sorted : (table.regions ++ [reg]).Pairwise fun a b => decide (a.start ≤ b.start) = true := by
    refine List.Pairwise.imp_of_mem (fun {a b} first _ apart => ?_) ordered.order
    have inside := ordered.bounds a first
    exact decide_eq_true (BitVec.le_trans inside (BitVec.le_of_lt apart))
  unfold setRegion
  rw [if_neg (BitVec.not_lt.mpr bound)]
  show ((table.regions.flatMap (·.outside reg.start reg.last) ++ [reg]).mergeSort
    fun a b => a.start ≤ b.start) = _
  rw [outside]
  exact List.mergeSort_of_pairwise sorted

/-- Setting regions in their order gives their list. -/
theorem setRegions {regions : List MemoryRegion} :
    ∀ {table : XrefTable}, RegionsOrdered (table.regions ++ regions) →
      (regions.foldl (fun table reg => (table.setRegion reg.start reg.last reg.type).1)
        table).regions = table.regions ++ regions := by
  induction regions with
  | nil => exact fun _ => (List.append_nil _).symm
  | cons reg regions inductionHypothesis =>
    intro table ordered
    have split : table.regions ++ reg :: regions = (table.regions ++ [reg]) ++ regions := by
      rw [List.append_assoc]
      rfl
    rw [split] at ordered ⊢
    have first := @setRegion_append table reg
      ⟨fun known listed => ordered.bounds known (List.mem_append_left _ listed),
        (List.pairwise_append.mp ordered.order).1⟩
    rw [List.foldl_cons, ← first]
    exact inductionHypothesis (first ▸ ordered)

end XrefTable

end VectorDebugger

namespace VectorDebugger.ProjectFile

open TextSearch

/-! ### Symbols -/

/-- What a project file keeps of a symbol. -/
def restored (sym : DebugSymbol) : DebugSymbol where
  address := sym.address
  name := sym.name
  comment := sym.comment
  type := sym.type
  sourceFile := []
  sourceLine := 0
  fromMap := false

/-- A written symbol is added again where there is none. -/
theorem loadSymbol_written {db : SymbolDatabase} {sym : DebugSymbol}
    (readable : ReadableSymbol sym) (named : sym.name ≠ [])
    (normal : normalizeRdbText sym.comment = sym.comment)
    (unused : db.symbols sym.address = none) :
    (loadSymbol db (objectText (symbolFields sym))).symbols =
      Function.update db.symbols sym.address (some (restored sym)) := by
  obtain ⟨address, name, type, comment⟩ := symbolFields_read readable
  have kind : (if some (symbolTypeText sym.type) = some (ascii "function") then SymbolType.function
      else .label) = sym.type := by
    cases sym.type with
    | function => rfl
    | label => rfl
  have added : (db.addSymbol sym.address sym.name sym.type).1.symbols =
      Function.update db.symbols sym.address (some { restored sym with comment := [] }) := by
    unfold SymbolDatabase.addSymbol
    rw [unused]
    rfl
  unfold loadSymbol
  dsimp only
  rw [fieldAddr_of_read address, name, type, comment, kind, Option.getD_some, Option.getD_some,
    if_neg named]
  split
  · rename_i empty
    rw [added]
    unfold restored
    rw [empty]
  · have found : (db.addSymbol sym.address sym.name sym.type).1.symbols sym.address =
        some { restored sym with comment := [] } := by
      rw [added, Function.update_self]
    unfold SymbolDatabase.setComment
    rw [found]
    show Function.update (db.addSymbol sym.address sym.name sym.type).1.symbols sym.address
      (some { restored sym with comment := normalizeRdbText sym.comment }) = _
    rw [added, Function.update_idem, normal]
    rfl

/-- Written symbols of different addresses are all added again. -/
theorem loadSymbols_written {symbols : List DebugSymbol}
    (readable : ∀ sym ∈ symbols, ReadableSymbol sym ∧ sym.name ≠ [] ∧
      normalizeRdbText sym.comment = sym.comment)
    (distinct : symbols.Pairwise fun a b => a.address ≠ b.address) :
    ∀ {db : SymbolDatabase}, (∀ sym ∈ symbols, db.symbols sym.address = none) → ∀ addr,
      (symbols.foldl (fun db sym => loadSymbol db (objectText (symbolFields sym))) db).symbols
          addr =
        ((symbols.find? (·.address == addr)).map restored).or (db.symbols addr) := by
  induction symbols with
  | nil => exact fun _ _ => rfl
  | cons sym symbols inductionHypothesis =>
    intro db unused addr
    obtain ⟨first, named, normal⟩ := readable sym List.mem_cons_self
    have written := loadSymbol_written first named normal (unused sym List.mem_cons_self)
    have apart := List.pairwise_cons.mp distinct
    have later := @inductionHypothesis
      (fun other listed => readable other (List.mem_cons_of_mem _ listed)) apart.2
      (loadSymbol db (objectText (symbolFields sym))) (fun other listed => by
        rw [written, Function.update_of_ne (apart.1 other listed).symm]
        exact unused other (List.mem_cons_of_mem _ listed)) addr
    rw [List.foldl_cons, later, written]
    by_cases here : addr = sym.address
    · have absent : symbols.find? (·.address == addr) = none := by
        rw [List.find?_eq_none]
        intro other listed same
        exact apart.1 other listed (here ▸ (eq_of_beq same).symm)
      rw [absent, here, Function.update_self, List.find?_cons, beq_self_eq_true]
      rfl
    · rw [Function.update_of_ne here, List.find?_cons, beq_false_of_ne (Ne.symm here)]

theorem mem_allSymbols (db : SymbolDatabase) (sym : DebugSymbol) :
    sym ∈ allSymbols db ↔ db.symbols sym.address = some sym := by
  unfold allSymbols
  rw [List.mem_filterMap]
  constructor
  · rintro ⟨addr, _, found⟩
    rw [db.keyed addr sym found]
    exact found
  · intro found
    refine ⟨sym.address, List.mem_map.mpr ⟨sym.address.toNat, ?_, ?_⟩, found⟩
    · exact List.mem_range.mpr sym.address.isLt
    · rw [BitVec.ofNat_toNat, BitVec.setWidth_eq]

theorem allSymbols_distinct (db : SymbolDatabase) :
    (allSymbols db).Pairwise fun a b => a.address ≠ b.address := by
  have addresses : allAddresses.Nodup := by
    refine List.Nodup.map_on (fun a first b second same => ?_) List.nodup_range
    have below := List.mem_range.mp first
    have under := List.mem_range.mp second
    have values := congrArg BitVec.toNat same
    simpa only [BitVec.toNat_ofNat, Nat.mod_eq_of_lt below, Nat.mod_eq_of_lt under] using values
  refine List.Pairwise.filterMap _ (fun a b apart sym found other foundOther same => ?_) addresses
  rw [← db.keyed a sym found, ← db.keyed b other foundOther] at apart
  exact apart same

theorem find_allSymbols (db : SymbolDatabase) (addr : Word) :
    (allSymbols db).find? (·.address == addr) = db.symbols addr := by
  have members := mem_allSymbols db
  generalize allSymbols db = symbols at members
  cases found : symbols.find? (·.address == addr) with
  | some sym =>
    have same := List.find?_some found
    have place : sym.address = addr := eq_of_beq same
    have stored := (members sym).mp (List.mem_of_find?_eq_some found)
    rw [place] at stored
    exact stored.symm
  | none =>
    cases stored : db.symbols addr with
    | none => rfl
    | some sym =>
      have place := db.keyed addr sym stored
      have listed := (members sym).mpr (by rw [place]; exact stored)
      have differs := List.find?_eq_none.mp found sym listed
      exact absurd (beq_iff_eq.mpr place) differs

/-! ### Breakpoints -/

theorem breakpointStrings_cons (bp : DebuggerBreakpoint) (rest : List DebuggerBreakpoint) :
    breakpointStrings (bp :: rest) =
      (if bp.enabled then
          word quote (addrToHex bp.address) ++ if rest = [] then [] else ascii ", "
        else []) ++ breakpointStrings rest := rfl

/-- The reader takes the addresses of the enabled breakpoints. -/
theorem blocks_breakpoints (breakpoints : List DebuggerBreakpoint) :
    ∀ {fuel : Nat} {before : Text}, (breakpoints.filter (·.enabled)).length ≤ fuel →
      quote ∉ before →
      blocks quote quote fuel (before ++ breakpointStrings breakpoints) =
        (breakpoints.filter (·.enabled)).map fun bp => addrToHex bp.address := by
  induction breakpoints with
  | nil =>
    intro fuel before _ free
    have none : before ++ breakpointStrings [] = before := List.append_nil before
    rw [none]
    exact blocks_nil _ free fuel
  | cons bp breakpoints inductionHypothesis =>
    intro fuel before enough free
    rw [breakpointStrings_cons]
    cases enabled : bp.enabled with
    | false =>
      rw [List.filter_cons_of_neg (by rw [enabled]; exact Bool.false_ne_true)] at enough ⊢
      exact inductionHypothesis enough free
    | true =>
      rw [List.filter_cons_of_pos enabled] at enough ⊢
      obtain ⟨fuel, rfl⟩ := Nat.exists_eq_add_of_le' enough
      have separator : quote ∉ (if breakpoints = [] then [] else ascii ", ") := by
        split
        · exact List.not_mem_nil
        · decide
      have shape : before ++ ((if true = true then word quote (addrToHex bp.address) ++
          (if breakpoints = [] then [] else ascii ", ") else []) ++ breakpointStrings breakpoints) =
            before ++ quote :: (addrToHex bp.address ++ quote ::
              ((if breakpoints = [] then [] else ascii ", ") ++
                breakpointStrings breakpoints)) := by
        rw [if_pos rfl]
        unfold word
        simp only [List.append_assoc, List.cons_append, List.nil_append]
      have later := @inductionHypothesis
        (fuel + (breakpoints.filter (·.enabled)).length) _ (Nat.le_add_left _ _) separator
      rw [shape, List.length_cons, ← Nat.add_assoc,
        blocks_cons free (addrToHex_free _ (by decide)), later]
      rfl

theorem length_breakpointStrings (breakpoints : List DebuggerBreakpoint) :
    (breakpoints.filter (·.enabled)).length ≤ (breakpointStrings breakpoints).length := by
  induction breakpoints with
  | nil => exact Nat.le_refl 0
  | cons bp breakpoints inductionHypothesis =>
    rw [breakpointStrings_cons]
    cases enabled : bp.enabled with
    | false =>
      rw [List.filter_cons_of_neg (by rw [enabled]; exact Bool.false_ne_true)]
      exact inductionHypothesis
    | true =>
      rw [List.filter_cons_of_pos enabled, if_pos rfl]
      unfold word
      simp only [List.length_append, List.length_cons]
      have inner : (breakpoints.filter DebuggerBreakpoint.enabled).length ≤ _ :=
        inductionHypothesis
      omega

/-- The enabled breakpoints are read back, in their order. -/
theorem loadBreakpoints_written (breakpoints : List DebuggerBreakpoint) :
    loadBreakpoints (breakpointStrings breakpoints) = breakpoints.filter (·.enabled) := by
  unfold loadBreakpoints
  rw [show blocks quote quote (breakpointStrings breakpoints).length
      (breakpointStrings breakpoints) = _ from
    @blocks_breakpoints breakpoints _ [] (length_breakpointStrings breakpoints) List.not_mem_nil,
    List.filterMap_map]
  have same : ∀ bp ∈ breakpoints.filter (·.enabled),
      ((fun s => (hexToAddr s).map fun address => ({ address, enabled := true } :
        DebuggerBreakpoint)) ∘ fun bp : DebuggerBreakpoint => addrToHex bp.address) bp =
          some bp := by
    intro bp listed
    have enabled : bp.enabled = true := (List.mem_filter.mp listed).2
    show (hexToAddr (addrToHex bp.address)).map _ = _
    rw [hexToAddr_addrToHex, Option.map_some, ← enabled]
  rw [List.filterMap_congr same]
  exact List.filterMap_some

/-- No bracket stands among the breakpoints. -/
theorem breakpointStrings_free (breakpoints : List DebuggerBreakpoint) :
    0x5d ∉ breakpointStrings breakpoints := by
  induction breakpoints with
  | nil => exact List.not_mem_nil
  | cons bp breakpoints inductionHypothesis =>
    rw [breakpointStrings_cons]
    simp only [List.mem_append, not_or]
    refine ⟨?_, inductionHypothesis⟩
    split
    · simp only [List.mem_append, not_or]
      refine ⟨word_free (by decide) (addrToHex_free _ (by decide)), ?_⟩
      split
      · exact List.not_mem_nil
      · decide
    · exact List.not_mem_nil

end VectorDebugger.ProjectFile

namespace VectorDebugger

/-! ### What the database promises -/

/-- Two regions do not overlap. -/
def MemoryRegion.Apart (a b : MemoryRegion) : Prop := a.last < b.start ∨ b.last < a.start

/-- What is left of a region lies in it and outside the new one. -/
theorem MemoryRegion.outside_spec {reg : MemoryRegion} {start last : Word}
    (bounds : reg.start ≤ reg.last) {piece : MemoryRegion}
    (left : piece ∈ reg.outside start last) :
    reg.start ≤ piece.start ∧ piece.start ≤ piece.last ∧ piece.last ≤ reg.last ∧
      (piece.last < start ∨ last < piece.start) := by
  unfold MemoryRegion.outside at left
  split at left
  · rename_i clear
    rw [List.mem_singleton.mp left]
    exact ⟨BitVec.le_refl _, bounds, BitVec.le_refl _, clear⟩
  · obtain front | back := List.mem_append.mp left
    · split at front
      · rename_i before
        rw [List.mem_singleton.mp front]
        refine ⟨BitVec.le_refl _, ?_, ?_, .inl ?_⟩
        all_goals dsimp only
        all_goals bv_omega
      · exact absurd front List.not_mem_nil
    · split at back
      · rename_i after
        rw [List.mem_singleton.mp back]
        refine ⟨?_, ?_, BitVec.le_refl _, .inr ?_⟩
        all_goals dsimp only
        all_goals bv_omega
      · exact absurd back List.not_mem_nil

/-- The two parts that are left of one region are apart. -/
theorem MemoryRegion.outside_apart (reg : MemoryRegion) {start last : Word}
    (bounds : start ≤ last) : (reg.outside start last).Pairwise Apart := by
  unfold MemoryRegion.outside
  split
  · exact List.pairwise_singleton _ _
  · split
    · split
      · rename_i before after
        refine List.pairwise_pair.mpr (.inl ?_)
        dsimp only
        bv_omega
      · exact List.pairwise_singleton _ _
    · split
      · exact List.pairwise_singleton _ _
      · exact List.Pairwise.nil

/-- Regions that are apart and sorted by their starts are in order. -/
theorem RegionsOrdered.of_sorted {regions : List MemoryRegion}
    (bounds : ∀ reg ∈ regions, reg.start ≤ reg.last)
    (apart : regions.Pairwise MemoryRegion.Apart)
    (sorted : regions.Pairwise fun a b => decide (a.start ≤ b.start) = true) :
    RegionsOrdered regions where
  bounds := bounds
  order := by
    refine (List.pairwise_and_iff.mpr ⟨apart, sorted⟩).imp_of_mem fun {a b} first second both => ?_
    have later := bounds b second
    have starts := of_decide_eq_true both.2
    obtain before | after := both.1
    · exact before
    · bv_omega

/-- Setting a region keeps the regions in order. -/
theorem RegionsOrdered.setRegion {table : XrefTable} (ordered : RegionsOrdered table.regions)
    (start last : Word) (type : MemoryRegionType) :
    RegionsOrdered (table.setRegion start last type).1.regions := by
  unfold XrefTable.setRegion
  split
  · exact ordered
  · rename_i valid
    have inside : start ≤ last := BitVec.not_lt.mp valid
    have pieces : ∀ piece ∈ table.regions.flatMap (·.outside start last),
        piece.start ≤ piece.last ∧ (piece.last < start ∨ last < piece.start) := by
      intro piece listed
      obtain ⟨reg, known, left⟩ := List.mem_flatMap.mp listed
      have spec := MemoryRegion.outside_spec (ordered.bounds reg known) left
      exact ⟨spec.2.1, spec.2.2.2⟩
    have parts : (table.regions.flatMap (·.outside start last)).Pairwise MemoryRegion.Apart := by
      refine List.pairwise_flatMap.mpr ⟨fun reg _ => reg.outside_apart inside, ?_⟩
      refine ordered.order.imp_of_mem fun {a b} first second before x left y right => ?_
      have above := MemoryRegion.outside_spec (ordered.bounds a first) left
      have below := MemoryRegion.outside_spec (ordered.bounds b second) right
      refine .inl ?_
      obtain ⟨_, _, lastBound, _⟩ := above
      obtain ⟨startBound, _, _, _⟩ := below
      bv_omega
    have newRegion : (table.regions.flatMap (·.outside start last) ++
        [({ start, last, type } : MemoryRegion)]).Pairwise MemoryRegion.Apart := by
      refine List.pairwise_append.mpr ⟨parts, List.pairwise_singleton _ _, ?_⟩
      intro piece listed other last
      rw [List.mem_singleton.mp last]
      exact (pieces piece listed).2
    have perm := List.mergeSort_perm (table.regions.flatMap (·.outside start last) ++
      [({ start, last, type } : MemoryRegion)]) fun a b => decide (a.start ≤ b.start)
    refine RegionsOrdered.of_sorted (fun reg listed => ?_) ?_ ?_
    · obtain old | new := List.mem_append.mp (perm.mem_iff.mp listed)
      · exact (pieces reg old).1
      · rw [List.mem_singleton.mp new]
        exact inside
    · exact perm.symm.pairwise newRegion fun {a b} apart => apart.symm
    · refine List.pairwise_mergeSort (fun a b c first second => ?_) (fun a b => ?_) _
      · exact decide_eq_true (BitVec.le_trans (of_decide_eq_true first) (of_decide_eq_true second))
      · rw [Bool.or_eq_true, decide_eq_true_eq, decide_eq_true_eq]
        exact BitVec.le_total _ _

/-- Removing a region keeps the others in order. -/
theorem RegionsOrdered.removeRegion {table : XrefTable} (ordered : RegionsOrdered table.regions)
    (start : Word) : RegionsOrdered (table.removeRegion start).1.regions := by
  unfold XrefTable.removeRegion
  split
  · exact ⟨fun reg listed => ordered.bounds reg (List.mem_of_mem_eraseP listed),
      ordered.order.sublist List.eraseP_sublist⟩
  · exact ordered


/-- Every comment is as `setComment` stores it. -/
def SymbolDatabase.Normal (db : SymbolDatabase) : Prop :=
  ∀ addr sym, db.symbols addr = some sym → normalizeRdbText sym.comment = sym.comment

namespace SymbolDatabase

theorem Normal.empty : SymbolDatabase.empty.Normal := by
  intro addr sym found
  cases found

theorem Normal.set {db : SymbolDatabase} (normal : db.Normal) {sym : DebugSymbol}
    (comment : normalizeRdbText sym.comment = sym.comment) : (db.set sym).Normal := by
  intro addr stored found
  have updated : Function.update db.symbols sym.address (some sym) addr = some stored := found
  by_cases here : addr = sym.address
  · rw [here, Function.update_self] at updated
    rw [← Option.some.inj updated]
    exact comment
  · rw [Function.update_of_ne here] at updated
    exact normal addr stored updated

/-- The operations on symbols keep every comment normal. -/
theorem Normal.addSymbol {db : SymbolDatabase} (normal : db.Normal) (addr : Word) (name : Text)
    (type : SymbolType) : (db.addSymbol addr name type).1.Normal := by
  unfold SymbolDatabase.addSymbol
  split
  · exact normal
  · exact normal.set rfl

theorem Normal.removeSymbol {db : SymbolDatabase} (normal : db.Normal) (addr : Word) :
    (db.removeSymbol addr).1.Normal := by
  intro other stored found
  have updated : Function.update db.symbols addr none other = some stored := found
  by_cases here : other = addr
  · rw [here, Function.update_self] at updated
    cases updated
  · rw [Function.update_of_ne here] at updated
    exact normal other stored updated

theorem Normal.renameSymbol {db : SymbolDatabase} (normal : db.Normal) (addr : Word)
    (newName : Text) : (db.renameSymbol addr newName).1.Normal := by
  unfold SymbolDatabase.renameSymbol
  split
  · exact normal
  · rename_i sym found
    exact normal.set (normal addr sym found)

theorem Normal.setComment {db : SymbolDatabase} (normal : db.Normal) (addr : Word)
    (comment : Text) : (db.setComment addr comment).1.Normal := by
  unfold SymbolDatabase.setComment
  split
  · exact normal
  · exact normal.set (RdbText.normalizeRdbText_idempotent comment)

end SymbolDatabase

end VectorDebugger

namespace VectorDebugger.ProjectFile

open TextSearch

/-! ### The round trip -/

/-- What the database holds by its own operations: comments as `setComment` stores them, regions as
`setRegion` does. Names are not empty. -/
structure Stored (db : SymbolDatabase) (regions : List MemoryRegion) : Prop where
  /-- Every symbol has a name. -/
  named : ∀ sym ∈ allSymbols db, sym.name ≠ []
  /-- Comments are normalized. -/
  normal : db.Normal
  /-- Regions are in order. -/
  ordered : RegionsOrdered regions

/-- No string moves a boundary that the reader looks for. -/
structure Readable (db : SymbolDatabase) (romPath : Text) : Prop where
  /-- The path needs no escape. -/
  path : Plain romPath
  /-- The strings of every symbol can be taken. -/
  symbols : ∀ sym ∈ allSymbols db, ReadableSymbol sym
  /-- The path is no key of a later array. -/
  pathKey : romPath ≠ ascii "regions" ∧ romPath ≠ ascii "breakpoints"
  /-- No string is the key of the regions, or no string has the bracket that would follow it. -/
  regionsKey : Unused (ascii "regions") (allSymbols db) ∨
    ∀ sym ∈ allSymbols db, 0x5b ∉ sym.name ∧ 0x5b ∉ sym.comment
  /-- No string is the key of the breakpoints. -/
  breakpointsKey : Unused (ascii "breakpoints") (allSymbols db)

/-- A project that has what was saved. -/
structure Restores (project : Project) (db : SymbolDatabase) (regions : List MemoryRegion)
    (breakpoints : List DebuggerBreakpoint) (romPath : Text) : Prop where
  /-- Address, name, type and comment of every symbol. -/
  symbols : ∀ addr, project.symbols.symbols addr = (db.symbols addr).map restored
  /-- The regions. -/
  regions : project.table.regions = regions
  /-- The enabled breakpoints, in their order. -/
  breakpoints : project.breakpoints = breakpoints.filter (·.enabled)
  /-- The path. -/
  romPath : project.romPath = romPath

/-- The members of all symbols. -/
def symbolList (db : SymbolDatabase) : List (List (Text × Text)) :=
  (allSymbols db).map symbolFields

theorem symbolList_free {db : SymbolDatabase} {romPath : Text} (readable : Readable db romPath)
    {c : Byte} (mark : c ∈ ([0x5b, 0x5d, 0x7d] : List Byte))
    (free : ∀ sym ∈ allSymbols db, c ∉ sym.name ∧ c ∉ sym.comment) :
    ∀ fields ∈ symbolList db, c ∉ members fields := by
  have punctuation : ∀ d ∈ ([0x5b, 0x5d, 0x7d] : List Byte), d ∉ ascii "\": ," := by decide
  intro fields listed
  obtain ⟨sym, present, rfl⟩ := List.mem_map.mp listed
  have known := readable.symbols sym present
  have here := free sym present
  exact members_free (punctuation c mark)
    (symbolFields_free known.name known.comment (List.mem_cons_of_mem _ mark) here.1 here.2)

theorem symbolList_passed {db : SymbolDatabase} {romPath : Text} (readable : Readable db romPath)
    {key : Text} (letter : ∃ c ∈ key, ¬ (0x30 ≤ c ∧ c ≤ 0x46))
    (fixed : key ∉ [ascii "address", ascii "name", ascii "type", ascii "comment",
      ascii "function", ascii "label"]) (unused : Unused key (allSymbols db)) :
    ∀ fields ∈ symbolList db, ∀ field ∈ fields, Passed key field.1 ∧ Passed key field.2 := by
  intro fields listed
  obtain ⟨sym, present, rfl⟩ := List.mem_map.mp listed
  have known := readable.symbols sym present
  exact symbolFields_passed known.name known.comment letter fixed (unused sym present).1
    (unused sym present).2

theorem regionList_passed (regions : List MemoryRegion) :
    ∀ fields ∈ regions.map regionFields, ∀ field ∈ fields,
      Passed (ascii "breakpoints") field.1 ∧ Passed (ascii "breakpoints") field.2 := by
  intro fields listed
  obtain ⟨reg, _, rfl⟩ := List.mem_map.mp listed
  exact regionFields_passed reg (by decide) (by decide)

theorem regionList_free (regions : List MemoryRegion) {c : Byte}
    (mark : c ∈ ([0x5d, 0x7d] : List Byte)) :
    ∀ fields ∈ regions.map regionFields, c ∉ members fields := by
  have punctuation : ∀ d ∈ ([0x5d, 0x7d] : List Byte), d ∉ ascii "\": ," := by decide
  intro fields listed
  obtain ⟨reg, _, rfl⟩ := List.mem_map.mp listed
  exact members_free (punctuation c mark) (regionFields_free reg (List.mem_cons_of_mem _ mark))

theorem path_passed {db : SymbolDatabase} {romPath : Text} (readable : Readable db romPath)
    {key : Text} (other : romPath ≠ key) : Passed key (escapeJson romPath) := by
  rw [escapeJson_plain readable.path]
  exact ⟨readable.path.quote, other⟩

/-- The regions are found behind the symbols. -/
theorem seek_regions {db : SymbolDatabase} {romPath : Text} (readable : Readable db romPath)
    (list : List (List (Text × Text))) (rest : Text) :
    ∃ front, 0x5b ∉ front ∧
      seek (word quote (ascii "regions"))
        (header romPath ++ (objectList (ascii "symbols") (symbolList db) ++
          (ascii ",\n    " ++ (objectList (ascii "regions") list ++ rest)))) =
            some (front ++ (objectList (ascii "regions") list ++ rest)) := by
  have keyword : Keyword (ascii "regions") := by decide
  have named : Passed (ascii "regions") (ascii "symbols") := ⟨by decide, by decide⟩
  rw [seek_header keyword ⟨by decide, by decide⟩ ⟨by decide, by decide⟩
    (path_passed readable readable.pathKey.1)]
  obtain unused | closed := readable.regionsKey
  · refine ⟨[], List.not_mem_nil, ?_⟩
    rw [seek_objectList keyword named
      (symbolList_passed readable (by decide) (by decide) unused), seek_before (by decide),
      seek_array]
    rfl
  · have free : 0x5b ∉ lines (symbolList db) ++ (ascii "    ]" ++ ascii ",\n    ") := by
      intro inside
      obtain inside | inside := List.mem_append.mp inside
      · exact lines_free (by decide) (symbolList_free readable (by decide) closed) inside
      · exact absurd inside (by decide)
    obtain ⟨front, suffix, found⟩ := seek_within (seek_array (ascii "regions") list rest)
      (lines (symbolList db) ++ (ascii "    ]" ++ ascii ",\n    "))
    rw [List.append_assoc, List.append_assoc] at found
    refine ⟨front, fun inside => free (suffix.subset inside), ?_⟩
    rw [objectList_append, seek_other keyword named (keyword.differs (ascii ": [\n") (by decide) _),
      seek_before (by decide)]
    exact found

/-- The breakpoints are found behind the regions. -/
theorem seek_breakpoints {db : SymbolDatabase} {romPath : Text} (readable : Readable db romPath)
    (regions : List MemoryRegion) (rest : Text) :
    seek (word quote (ascii "breakpoints"))
      (header romPath ++ (objectList (ascii "symbols") (symbolList db) ++
        (ascii ",\n    " ++ (objectList (ascii "regions") (regions.map regionFields) ++
          (ascii ",\n    " ++ (word quote (ascii "breakpoints") ++ rest)))))) =
            some (word quote (ascii "breakpoints") ++ rest) := by
  have keyword : Keyword (ascii "breakpoints") := by decide
  rw [seek_header keyword ⟨by decide, by decide⟩ ⟨by decide, by decide⟩
      (path_passed readable readable.pathKey.2),
    seek_objectList keyword ⟨by decide, by decide⟩
      (symbolList_passed readable (by decide) (by decide) readable.breakpointsKey),
    seek_before (by decide),
    seek_objectList keyword ⟨by decide, by decide⟩ (regionList_passed regions),
    seek_before (by decide), seek_word]

/-- The path is found in the header. -/
theorem seek_romPath (romPath rest : Text) : ∃ after,
    seek (word quote (ascii "rom_path")) (header romPath ++ rest) =
      some ([] ++ (member (ascii "rom_path") (escapeJson romPath) ++ after)) := by
  have keyword : Keyword (ascii "rom_path") := by decide
  refine ⟨ascii ",\n    " ++ rest, ?_⟩
  unfold header
  simp only [List.append_assoc]
  rw [seek_before (by decide),
    seek_other keyword ⟨by decide, by decide⟩
      (keyword.differs (ascii ": 1,\n    ") (by decide) _),
    seek_before (by decide)]
  unfold member
  simp only [List.append_assoc]
  exact seek_word quote (ascii "rom_path") _

theorem romPathText_save {romPath : Text} (plain : Plain romPath) (rest : Text) :
    romPathText (header romPath ++ rest) = some romPath := by
  obtain ⟨after, found⟩ := seek_romPath romPath rest
  unfold romPathText
  rw [found, Option.bind_some, cut_member List.not_mem_nil (by decide), Option.bind_some,
    escapeJson_plain plain]
  exact quotedText_value plain.quote _

theorem breakpointsText_save {db : SymbolDatabase} {romPath : Text} (readable : Readable db romPath)
    (regions : List MemoryRegion) (breakpoints : List DebuggerBreakpoint) :
    sectionText (save db regions breakpoints romPath) (ascii "breakpoints") =
      some (breakpointStrings breakpoints) := by
  have found := seek_breakpoints readable regions
    (ascii ": " ++ 0x5b :: (breakpointStrings breakpoints ++ 0x5d :: ascii "\n\x7d\n"))
  have shape : word quote (ascii "breakpoints") ++ (ascii ": " ++ 0x5b ::
      (breakpointStrings breakpoints ++ 0x5d :: ascii "\n\x7d\n")) =
        (word quote (ascii "breakpoints") ++ ascii ": ") ++ 0x5b ::
          (breakpointStrings breakpoints ++ 0x5d :: ascii "\n\x7d\n") := by
    rw [List.append_assoc]
  unfold sectionText
  rw [show seek _ (save db regions breakpoints romPath) = _ from found, Option.bind_some, shape,
    cut_append (by decide), Option.bind_some, cut_append (breakpointStrings_free breakpoints)]
  rfl

/-- A readable project is restored. -/
theorem load_save {db : SymbolDatabase} {regions : List MemoryRegion} {romPath : Text}
    (breakpoints : List DebuggerBreakpoint) (stored : Stored db regions)
    (readable : Readable db romPath) :
    Restores (load (save db regions breakpoints romPath)) db regions breakpoints romPath := by
  have closedObjects : ∀ fields ∈ symbolList db, 0x7d ∉ members fields :=
    symbolList_free readable (by decide) fun sym listed =>
      ⟨(readable.symbols sym listed).nameOpen.2, (readable.symbols sym listed).commentOpen.2⟩
  have closedList : 0x5d ∉ lines (symbolList db) :=
    lines_free (by decide) (symbolList_free readable (by decide) fun sym listed =>
      ⟨(readable.symbols sym listed).nameOpen.1, (readable.symbols sym listed).commentOpen.1⟩)
  have symbolsText : sectionText (save db regions breakpoints romPath) (ascii "symbols") =
      some (listText (symbolList db)) := by
    obtain ⟨front, free, found⟩ := seek_symbols readable.path (symbolList db) _
    exact sectionText_list found free (by decide) closedList
  have regionsText : sectionText (save db regions breakpoints romPath) (ascii "regions") =
      some (listText (regions.map regionFields)) := by
    obtain ⟨front, free, found⟩ := seek_regions readable (regions.map regionFields) _
    exact sectionText_list found free (by decide)
      (lines_free (by decide) (regionList_free regions (by decide)))
  have breakpointsText : sectionText (save db regions breakpoints romPath) (ascii "breakpoints") =
      some (breakpointStrings breakpoints) :=
    breakpointsText_save readable regions breakpoints
  refine ⟨fun addr => ?_, ?_, ?_, ?_⟩
  · have written := @loadSymbols_written (allSymbols db)
      (fun sym listed => ⟨readable.symbols sym listed, stored.named sym listed,
        stored.normal sym.address sym ((mem_allSymbols db sym).mp listed)⟩)
      (allSymbols_distinct db) .empty (fun _ _ => rfl) addr
    rw [find_allSymbols] at written
    have loaded : (load (save db regions breakpoints romPath)).symbols =
        (objects ((sectionText (save db regions breakpoints romPath) (ascii "symbols")).getD
          [])).foldl loadSymbol .empty := by
      unfold load
      dsimp only
    have listed : symbolList db = (allSymbols db).map symbolFields := rfl
    have folded : (objects (listText (symbolList db))).foldl loadSymbol .empty =
        (allSymbols db).foldl (fun db sym => loadSymbol db (objectText (symbolFields sym)))
          .empty := by
      rw [objects_listText closedObjects, listed, List.map_map, List.foldl_map]
      rfl
    rw [loaded, symbolsText, Option.getD_some, folded, written]
    exact Option.or_none
  · unfold load
    rw [regionsText, Option.getD_some, objects_listText (regionList_free regions (by decide)),
      List.map_map, List.foldl_map]
    have set := @XrefTable.setRegions regions .init stored.ordered
    simp only [Function.comp_apply, loadRegion_written]
    exact set
  · unfold load
    rw [breakpointsText]
    exact loadBreakpoints_written breakpoints
  · unfold load save
    rw [romPathText_save readable.path]
    rfl

/-- A session with one function. -/
def sample : SymbolDatabase := (SymbolDatabase.empty.addSymbol 0x0345 (ascii "DRAW") .function).1

theorem mem_sample {sym : DebugSymbol} (listed : sym ∈ allSymbols sample) :
    sym = { address := 0x0345, name := ascii "DRAW", comment := [], type := .function
            sourceFile := [], sourceLine := 0, fromMap := false } := by
  have found : Function.update SymbolDatabase.empty.symbols 0x0345 _ sym.address = some sym :=
    (mem_allSymbols sample sym).mp listed
  by_cases here : sym.address = 0x0345
  · rw [here, Function.update_self] at found
    exact (Option.some.inj found).symm
  · rw [Function.update_of_ne here] at found
    cases found

/-- The session is restored. -/
theorem load_save_sample :
    Restores
      (load (save sample [{ start := 0x0000, last := 0x03ff, type := .code }]
        [{ address := 0x0345, enabled := true }, { address := 0x7a20, enabled := false }]
        (ascii "/games/a.rom")))
      sample [{ start := 0x0000, last := 0x03ff, type := .code }]
      [{ address := 0x0345, enabled := true }, { address := 0x7a20, enabled := false }]
      (ascii "/games/a.rom") := by
  have plain : Plain (ascii "/games/a.rom") ∧ Plain (ascii "DRAW") ∧ Plain [] := by
    unfold Plain
    decide
  refine load_save _ ⟨fun sym listed => ?_, ?_, ⟨?_, List.pairwise_singleton _ _⟩⟩
    ⟨plain.1, fun sym listed => ?_, by decide, .inl fun sym listed => ?_, fun sym listed => ?_⟩
  · rw [mem_sample listed]
    decide
  · exact SymbolDatabase.Normal.empty.addSymbol _ _ _
  · intro reg listed
    rw [List.mem_singleton.mp listed]
    decide
  · rw [mem_sample listed]
    exact ⟨plain.2.1, plain.2.2, by decide, by decide,
      fun same => absurd same (by decide)⟩
  · rw [mem_sample listed]
    decide
  · rw [mem_sample listed]
    decide

/-! ### What a path loses -/

theorem length_escapeJson (s : Text) : s.length ≤ (escapeJson s).length := by
  induction s with
  | nil => exact Nat.le_refl 0
  | cons c s inductionHypothesis =>
    have one : 1 ≤ (escapeChar c).length := by
      by_cases special : c ∈ escapes
      · rw [(escapeChar_special special).1]
        decide
      · rw [escapeChar_plain special]
        exact Nat.le_refl 1
    show s.length + 1 ≤ (escapeChar c ++ escapeJson s).length
    rw [List.length_append]
    omega

/-- Escapes leave a text as it is exactly when there is nothing to escape. -/
theorem escapeJson_eq_iff (s : Text) : escapeJson s = s ↔ Plain s := by
  refine ⟨fun same => ?_, escapeJson_plain⟩
  induction s with
  | nil => exact fun _ _ => List.not_mem_nil
  | cons c s inductionHypothesis =>
    have written : escapeChar c ++ escapeJson s = c :: s := same
    by_cases special : c ∈ escapes
    · have lengths := congrArg List.length written
      have longer := length_escapeJson s
      rw [List.length_append, (escapeChar_special special).1, List.length_cons] at lengths
      omega
    · rw [escapeChar_plain special] at written
      have rest := inductionHypothesis (List.cons.inj written).2
      intro d listed inside
      obtain first | inside := List.mem_cons.mp inside
      · exact special (first ▸ listed)
      · exact rest d listed inside

/-- Escapes bring no quote into a text without one. -/
theorem escapeJson_quote {s : Text} (free : quote ∉ s) : quote ∉ escapeJson s := by
  intro inside
  obtain ⟨c, listed, inside⟩ := List.mem_flatMap.mp inside
  have other : c ≠ quote := fun same => free (same ▸ listed)
  by_cases special : c ∈ escapes
  · exact (escapeChar_special special).2 other inside
  · rw [escapeChar_plain special] at inside
    exact other (List.mem_singleton.mp inside).symm

/-- The path is read up to the first quote of its escaped text. -/
theorem load_romPath (db : SymbolDatabase) (regions : List MemoryRegion)
    (breakpoints : List DebuggerBreakpoint) (romPath : Text) :
    (load (save db regions breakpoints romPath)).romPath =
      (escapeJson romPath).takeWhile (· ≠ quote) := by
  obtain ⟨after, found⟩ := seek_romPath romPath (objectList (ascii "symbols") (symbolList db) ++
    (ascii ",\n    " ++ (objectList (ascii "regions") (regions.map regionFields) ++
      (ascii ",\n    " ++ (word quote (ascii "breakpoints") ++ (ascii ": " ++ 0x5b ::
        (breakpointStrings breakpoints ++ 0x5d :: ascii "\n\x7d\n")))))))
  obtain ⟨rest, first⟩ := cut_first quote (escapeJson romPath) after
  have read : romPathText (save db regions breakpoints romPath) =
      some ((escapeJson romPath).takeWhile (· ≠ quote)) := by
    unfold romPathText quotedText
    rw [show seek _ (save db regions breakpoints romPath) = _ from found, Option.bind_some,
      cut_member List.not_mem_nil (by decide), Option.bind_some, cut_append (by decide),
      Option.bind_some, first]
    rfl
  unfold load
  rw [read]
  rfl

theorem takeWhile_free {s : Text} (free : quote ∉ s) : s.takeWhile (· ≠ quote) = s := by
  refine List.takeWhile_eq_self_iff.mpr fun c listed => ?_
  have other : c ≠ quote := fun same => free (same ▸ listed)
  exact decide_eq_true other

/-- The path is restored exactly when it needs no escape. -/
theorem load_romPath_iff (db : SymbolDatabase) (regions : List MemoryRegion)
    (breakpoints : List DebuggerBreakpoint) (romPath : Text) :
    (load (save db regions breakpoints romPath)).romPath = romPath ↔ Plain romPath := by
  rw [load_romPath, ← escapeJson_eq_iff]
  constructor
  · intro same
    have free : quote ∉ romPath := by
      intro inside
      rw [← same] at inside
      have other := List.mem_takeWhile_imp inside
      exact absurd rfl (of_decide_eq_true other)
    rw [takeWhile_free (escapeJson_quote free)] at same
    exact same
  · intro same
    have free := ((escapeJson_eq_iff romPath).mp same).quote
    rw [same]
    exact takeWhile_free free

/-- A path with a backslash comes back with two. -/
theorem load_save_loses :
    ¬ Restores (load (save .empty [] [] (ascii "C:\\a.rom"))) .empty [] [] (ascii "C:\\a.rom") := by
  intro restores
  have plain := (load_romPath_iff .empty [] [] (ascii "C:\\a.rom")).mp restores.romPath
  exact plain 0x5c (by decide) (by decide)

end VectorDebugger.ProjectFile

import VectorDebugger.Debugger.RdbRoundTrip

/-!
# Where entries of a ROM database file go

An entry of the objects array is well addressed when its address is a string that denotes a
number up to FFFF in full. `objectFromJson` reads such an address. Of any other it takes the
number at the front, or zero, and files the entry all the same; so the table is what the
well-addressed entries make of it exactly when every other entry is replaced later, or repeats
what a well-addressed one left in its place.
-/

namespace VectorDebugger

/-! ### Addresses -/

/-- The text consists of hexadecimal digits, one at least, after a prefix `0x` or `0X` or none. -/
def isHexNumber (text : Text) : Bool :=
  !(skipPrefix text).isEmpty && (skipPrefix text).all fun c => (hexValue c).isSome

/-- The number that hexadecimal digits make, after a given one. -/
def hexNumber (value : Nat) (digits : Text) : Nat :=
  digits.foldl (fun value c => 16 * value + (hexValue c).getD 0) value

/-- The address that a text denotes in full. -/
def denotedAddr (text : Text) : Option Word :=
  if isHexNumber text ∧ hexNumber 0 (skipPrefix text) ≤ 0xffff then
    some (BitVec.ofNat 16 (hexNumber 0 (skipPrefix text)))
  else none

/-- The address that an entry gives. -/
def entryAddr (entry : Json) : Option Word :=
  match entry.member (ascii "address") with
  | some (.string text) => denotedAddr text
  | _ => none

/-- The address under which `rdbFromJson` files an entry. -/
def filedAt (entry : Json) : Word := (objectFromJson entry).address

theorem scanDigits_hexNumber (digits : Text)
    (digit : ∀ c ∈ digits, (hexValue c).isSome = true) (value : Nat) :
    scanDigits value true digits = some (hexNumber value digits) := by
  induction digits generalizing value with
  | nil => rfl
  | cons c rest inductionHypothesis =>
    have first := digit c List.mem_cons_self
    obtain ⟨number, known⟩ := Option.isSome_iff_exists.mp first
    have later := inductionHypothesis (fun d listed => digit d (List.mem_cons_of_mem c listed))
      (16 * value + number)
    unfold scanDigits hexNumber
    rw [known]
    dsimp only
    rw [later, List.foldl_cons, known]
    rfl

/-- Digits are read to their end, whatever stands in front. -/
theorem scanDigits_of_ne_nil {digits : Text} (some' : digits ≠ [])
    (digit : ∀ c ∈ digits, (hexValue c).isSome = true) (seen : Bool) :
    scanDigits 0 seen digits = some (hexNumber 0 digits) := by
  cases digits with
  | nil => exact absurd rfl some'
  | cons c rest =>
    have first := digit c List.mem_cons_self
    obtain ⟨number, known⟩ := Option.isSome_iff_exists.mp first
    have later := scanDigits_hexNumber rest
      (fun d listed => digit d (List.mem_cons_of_mem c listed)) (16 * 0 + number)
    unfold scanDigits hexNumber
    rw [known]
    dsimp only
    rw [later, List.foldl_cons, known]
    rfl

/-- A hexadecimal digit is no blank, no sign and no letter of a prefix. -/
theorem hexValue_other {c : Byte} (digit : (hexValue c).isSome = true) :
    isSpace c = false ∧ c ≠ 0x2d ∧ c ≠ 0x2b ∧ c ≠ 0x78 ∧ c ≠ 0x58 := by
  revert c
  decide

theorem skipPrefix_digits {digits : Text}
    (digit : ∀ c ∈ digits, (hexValue c).isSome = true) : skipPrefix digits = digits := by
  unfold skipPrefix
  split
  · rename_i c rest
    have second := hexValue_other (digit c (List.mem_cons_of_mem _ List.mem_cons_self))
    rw [if_neg (not_or.mpr ⟨second.2.2.2.1, second.2.2.2.2⟩)]
    rfl
  · rfl

/-- `sscanf` reads digits that fit as the number they make. -/
theorem scanHex_digits {digits : Text} (some' : digits ≠ [])
    (digit : ∀ c ∈ digits, (hexValue c).isSome = true) (small : hexNumber 0 digits ≤ 0xffff) :
    scanHex digits = some (BitVec.ofNat 32 (hexNumber 0 digits)) := by
  have unsigned : scanUnsigned digits = some (hexNumber 0 digits) := by
    unfold scanUnsigned
    rw [skipPrefix_digits digit]
    exact scanDigits_of_ne_nil some' digit _
  have low : min (hexNumber 0 digits) (2 ^ 64 - 1) = hexNumber 0 digits := by omega
  cases digits with
  | nil => exact absurd rfl some'
  | cons c rest =>
    have first := hexValue_other (digit c List.mem_cons_self)
    have front : (c :: rest).dropWhile isSpace = c :: rest :=
      List.dropWhile_cons_of_neg (by rw [first.1]; exact Bool.false_ne_true)
    unfold scanHex
    rw [front]
    split
    · rename_i _ minus
      exact absurd (List.cons.inj minus).1 first.2.1
    · rename_i _ plus
      exact absurd (List.cons.inj plus).1 first.2.2.1
    · rw [unsigned, Option.map_some, low]

/-- An address that is denoted in full is read. -/
theorem hexToAddr_of_denoted {text : Text} {addr : Word} (denoted : denotedAddr text = some addr) :
    hexToAddr text = some addr := by
  unfold denotedAddr at denoted
  split at denoted
  · rename_i number
    obtain ⟨whole, small⟩ := number
    unfold isHexNumber at whole
    rw [Bool.and_eq_true, List.all_eq_true] at whole
    have some' : skipPrefix text ≠ [] := by
      intro empty
      rw [empty] at whole
      exact absurd whole.1 (by decide)
    have exact' : (BitVec.ofNat 32 (hexNumber 0 (skipPrefix text))).toNat =
        hexNumber 0 (skipPrefix text) := by
      rw [BitVec.toNat_ofNat]
      omega
    unfold hexToAddr
    rw [scanHex_digits some' whole.2 small, Option.bind_some, if_neg (by omega), ← denoted]
    congr 1
    apply BitVec.eq_of_toNat_eq
    rw [BitVec.toNat_setWidth, exact', BitVec.toNat_ofNat]
  · cases denoted

theorem filedAt_of_entryAddr {entry : Json} {addr : Word} (given : entryAddr entry = some addr) :
    filedAt entry = addr := by
  unfold entryAddr at given
  unfold filedAt objectFromJson
  dsimp only
  generalize entry.member (ascii "address") = address at given ⊢
  cases address with
  | none => cases given
  | some value =>
    cases value with
    | string text =>
      have read := hexToAddr_of_denoted given
      dsimp only
      rw [read]
      rfl
    | _ => cases given

/-! ### The table -/

/-- The last entry that is filed under an address. -/
def lastFiled (items : List Json) (addr : Word) : Option Json :=
  (items.filter fun entry => decide (filedAt entry = addr)).getLast?

/-- The last entry that gives an address. -/
def lastGiven (items : List Json) (addr : Word) : Option Json :=
  (items.filter fun entry => decide (entryAddr entry = some addr)).getLast?

/-- Under each address is the last entry filed there. -/
theorem foldl_put_lastFiled (items : List Json) (rdb : RdbController)
    (empty : ∀ addr, rdb.objects addr = none) (addr : Word) :
    (items.foldl RdbController.put rdb).objects addr =
      (lastFiled items addr).map objectFromJson := by
  induction items using List.reverseRecOn with
  | nil => exact empty addr
  | append_singleton items last inductionHypothesis =>
    have stored : ((items ++ [last]).foldl RdbController.put rdb).objects =
        Function.update (items.foldl RdbController.put rdb).objects (filedAt last)
          (some (objectFromJson last)) := by
      rw [List.foldl_append]
      rfl
    rw [stored]
    unfold lastFiled
    rw [List.filter_append]
    by_cases here : filedAt last = addr
    · rw [here, Function.update_self, List.filter_cons_of_pos (by simpa using here),
        List.filter_nil, List.getLast?_concat]
      rfl
    · rw [Function.update_of_ne (Ne.symm here), inductionHypothesis,
        List.filter_cons_of_neg (by simpa using here), List.filter_nil, List.append_nil]
      rfl

/-- The entries of the objects array. -/
def entriesOf (root : Json) : List Json :=
  match root.member (ascii "objects") with
  | some (.array items) => items
  | _ => []

/-- The objects that a file leaves are those filed last. -/
theorem load_objects {files : RdbFiles} {path : Text} {impl : RdbImpl} {root : Json}
    (file : files path = some (.json root)) (accepted : (impl.load files path).2 = true)
    (addr : Word) : (impl.load files path).1.rdb.objects addr =
      (lastFiled (entriesOf root) addr).map objectFromJson := by
  unfold RdbImpl.load RdbImpl.rdbFromJson at accepted ⊢
  rw [file] at accepted ⊢
  dsimp only at accepted ⊢
  by_cases tagged : RdbImpl.hasFormat root = true
  · rw [if_pos tagged]
    show (RdbController.clean (match root.member (ascii "objects") with
      | some (.array items) => items.foldl RdbController.put impl.rdb.clear.clear
      | _ => impl.rdb.clear.clear)).objects addr = _
    have none' : ∀ addr, impl.rdb.clear.clear.objects addr = none := fun _ => rfl
    unfold entriesOf
    cases root.member (ascii "objects") with
    | none => rfl
    | some value =>
      cases value with
      | array items => exact foldl_put_lastFiled items impl.rdb.clear.clear none' addr
      | _ => rfl
  · rw [if_neg tagged] at accepted
    exact absurd accepted Bool.false_ne_true

/-- The objects are the well-addressed entries, each under its address, the last one where several
share it. -/
def OnlyWellAddressed (items : List Json) (rdb : RdbController) : Prop :=
  ∀ addr, rdb.objects addr = (lastGiven items addr).map objectFromJson

/-- Each entry without an address of its own is followed by one that is filed in the same place,
or repeats the object that the entries with addresses left there. -/
def Harmless (items : List Json) : Prop :=
  ∀ before entry after, items = before ++ entry :: after → entryAddr entry = none →
    (∀ later ∈ after, filedAt later ≠ filedAt entry) →
      ∃ known, lastGiven before (filedAt entry) = some known ∧
        objectFromJson known = objectFromJson entry

/-- What is filed last, with the entries around it. -/
theorem lastFiled_split {items : List Json} {addr : Word} {entry : Json}
    (last : lastFiled items addr = some entry) : ∃ before after, items = before ++ entry :: after ∧
      filedAt entry = addr ∧ ∀ later ∈ after, filedAt later ≠ addr := by
  unfold lastFiled at last
  rw [← List.head?_reverse, ← List.filter_reverse, List.head?_filter] at last
  obtain ⟨here, front, back, split, none'⟩ := List.find?_eq_some_iff_append.mp last
  refine ⟨back.reverse, front.reverse, ?_, of_decide_eq_true here, fun later listed there => ?_⟩
  · rw [← List.reverse_reverse items, split]
    simp
  · have differs := none' later (List.mem_reverse.mp listed)
    rw [there] at differs
    simp at differs

theorem lastFiled_append {before after : List Json} {entry : Json}
    (none' : ∀ later ∈ after, filedAt later ≠ filedAt entry) :
    lastFiled (before ++ entry :: after) (filedAt entry) = some entry := by
  have rest : after.filter (fun later => decide (filedAt later = filedAt entry)) = [] := by
    rw [List.filter_eq_nil_iff]
    intro later listed
    simpa using none' later listed
  unfold lastFiled
  rw [List.filter_append, List.filter_cons_of_pos (by simp), rest, List.getLast?_concat]

/-- What follows gives the address of no entry that is filed last. -/
theorem lastGiven_append {before after : List Json} {entry : Json}
    (none' : ∀ later ∈ after, filedAt later ≠ filedAt entry) :
    lastGiven (before ++ entry :: after) (filedAt entry) =
      if entryAddr entry = none then lastGiven before (filedAt entry) else some entry := by
  have rest : after.filter (fun later => decide (entryAddr later = some (filedAt entry))) = [] := by
    rw [List.filter_eq_nil_iff]
    intro later listed given
    exact none' later listed (filedAt_of_entryAddr (of_decide_eq_true given))
  unfold lastGiven
  rw [List.filter_append]
  cases given : entryAddr entry with
  | none =>
    rw [List.filter_cons_of_neg (by simp [given]), rest, List.append_nil, if_pos rfl]
  | some addr =>
    have same := filedAt_of_entryAddr given
    rw [List.filter_cons_of_pos (by simp [given, same]), rest, List.getLast?_concat,
      if_neg (Option.some_ne_none addr)]

/-- Where nothing is filed, nothing is given. -/
theorem lastGiven_eq_none {items : List Json} {addr : Word} (none' : lastFiled items addr = none) :
    lastGiven items addr = none := by
  unfold lastFiled at none'
  unfold lastGiven
  rw [List.getLast?_eq_none_iff, List.filter_eq_nil_iff] at none' ⊢
  intro entry listed given
  refine none' entry listed ?_
  rw [decide_eq_true_eq]
  exact filedAt_of_entryAddr (of_decide_eq_true given)

/-- The well-addressed entries decide alone exactly when the others are harmless. -/
theorem harmless_iff (items : List Json) :
    (∀ addr, (lastFiled items addr).map objectFromJson =
      (lastGiven items addr).map objectFromJson) ↔ Harmless items := by
  constructor
  · intro same before entry after split unaddressed none'
    have here := same (filedAt entry)
    rw [split, lastFiled_append none', lastGiven_append none', if_pos unaddressed] at here
    cases given : lastGiven before (filedAt entry) with
    | none =>
      rw [given] at here
      cases here
    | some known =>
      rw [given] at here
      exact ⟨known, rfl, (Option.some.inj here).symm⟩
  · intro harmless addr
    cases last : lastFiled items addr with
    | none => rw [lastGiven_eq_none last]
    | some entry =>
      obtain ⟨before, after, split, here, none'⟩ := lastFiled_split last
      rw [← here] at none' ⊢
      rw [split, lastGiven_append none']
      by_cases unaddressed : entryAddr entry = none
      · obtain ⟨known, given, repeats⟩ := harmless before entry after split unaddressed none'
        rw [if_pos unaddressed, given, Option.map_some, Option.map_some, repeats]
      · rw [if_neg unaddressed]

/-- A file with one entry, of the given address. -/
def oneEntry (address : Text) : Json :=
  .object [(ascii "format", .string (ascii "rdb")),
    (ascii "objects", .array [.object [(ascii "address", .string address)]])]

end VectorDebugger

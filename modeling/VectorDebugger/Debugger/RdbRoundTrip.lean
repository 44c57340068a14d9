import VectorDebugger.Debugger.RdbFile

/-!
# Reading back the ROM database

What `rdbToJson` writes, `rdbFromJson` reads back, for every state that the operations of the
controller can reach. Members are written under conditions, and the reader has to infer what was
left out; the size of an object without `hasSize` is the one thing it cannot infer.
-/

namespace VectorDebugger

section Hex

theorem hexValue_hexDigit {n : Nat} (below : n < 16) :
    hexValue (Disassembler.hexDigit n) = some n := by
  have all : ∀ digit : Fin 16, hexValue (Disassembler.hexDigit digit) = some digit.val := by
    decide
  exact all ⟨n, below⟩

/-- A digit is no white space, no sign, and no letter of a prefix. -/
theorem hexDigit_plain {n : Nat} (below : n < 16) :
    isSpace (Disassembler.hexDigit n) = false ∧ Disassembler.hexDigit n ≠ 0x2d ∧
      Disassembler.hexDigit n ≠ 0x2b ∧ Disassembler.hexDigit n ≠ 0x78 ∧
        Disassembler.hexDigit n ≠ 0x58 := by
  have all : ∀ digit : Fin 16, isSpace (Disassembler.hexDigit digit) = false ∧
      Disassembler.hexDigit digit ≠ 0x2d ∧ Disassembler.hexDigit digit ≠ 0x2b ∧
        Disassembler.hexDigit digit ≠ 0x78 ∧ Disassembler.hexDigit digit ≠ 0x58 := by
    decide
  exact all ⟨n, below⟩

/-- The digits of a number are read as the number. -/
theorem scanDigits_fmtHex (digits value : Nat) (given : Bool) (before : Nat)
    (small : value < 16 ^ digits) (positive : 0 < digits) :
    scanDigits before given (Disassembler.fmtHex value digits) =
      some (before * 16 ^ digits + value) := by
  have appended : ∀ (digits value : Nat) (given : Bool) (before : Nat) (rest : Text),
      scanDigits before given (Disassembler.fmtHex value digits ++ rest) =
        scanDigits (before * 16 ^ digits + value % 16 ^ digits) (given || 0 < digits) rest := by
    intro digits
    induction digits with
    | zero =>
      intro value given before rest
      simp [Disassembler.fmtHex, Nat.mod_one]
    | succ digits inductionHypothesis =>
      intro value given before rest
      have split' : value % 16 ^ (digits + 1) =
          16 * (value / 16 % 16 ^ digits) + value % 16 := by
        rw [Nat.pow_succ, Nat.mul_comm, Nat.mod_mul]
        omega
      have sum : 16 * (before * 16 ^ digits + value / 16 % 16 ^ digits) + value % 16 =
          before * 16 ^ (digits + 1) + value % 16 ^ (digits + 1) := by
        have scaled : before * 16 ^ (digits + 1) = 16 * (before * 16 ^ digits) := by
          rw [Nat.pow_succ, ← Nat.mul_assoc, Nat.mul_comm]
        rw [split', scaled]
        omega
      unfold Disassembler.fmtHex
      rw [List.append_assoc, inductionHypothesis, List.singleton_append, scanDigits,
        hexValue_hexDigit (Nat.mod_lt _ (by decide))]
      dsimp only
      rw [sum]
      simp
  have read := appended digits value given before []
  rw [List.append_nil, Nat.mod_eq_of_lt small] at read
  rw [read, scanDigits, if_pos (by simp [positive])]

theorem skipPrefix_plain {d : Byte} (c : Byte) (rest : Text) (plain : d ≠ 0x78 ∧ d ≠ 0x58) :
    skipPrefix (c :: d :: rest) = c :: d :: rest := by
  unfold skipPrefix
  split
  · rename_i other tail same
    obtain ⟨zero, here, tails⟩ : c = 0x30 ∧ d = other ∧ rest = tail := by
      simp only [List.cons.injEq] at same
      exact same
    rw [← here, ← tails, zero, if_neg (not_or.mpr plain)]
  · rfl

/-- Four digits are scanned as their number. -/
theorem scanHex_fmtHex (addr : Word) :
    scanHex (Disassembler.fmtHex addr.toNat 4) = some (BitVec.ofNat 32 addr.toNat) ∧
      skipPrefix (Disassembler.fmtHex addr.toNat 4) = Disassembler.fmtHex addr.toNat 4 := by
  have small : addr.toNat < 16 ^ 4 := addr.isLt
  have read := scanDigits_fmtHex 4 addr.toNat
    ((Disassembler.fmtHex addr.toNat 4).head? == some 0x30) 0 small (by decide)
  have first := hexDigit_plain (Nat.mod_lt (addr.toNat / 16 / 16 / 16) (by decide : 0 < 16))
  have second := hexDigit_plain (Nat.mod_lt (addr.toNat / 16 / 16) (by decide : 0 < 16))
  have digits : Disassembler.fmtHex addr.toNat 4 =
      Disassembler.hexDigit (addr.toNat / 16 / 16 / 16 % 16) ::
        Disassembler.hexDigit (addr.toNat / 16 / 16 % 16) ::
          [Disassembler.hexDigit (addr.toNat / 16 % 16),
            Disassembler.hexDigit (addr.toNat % 16)] := rfl
  rw [digits] at read
  rw [digits]
  generalize Disassembler.hexDigit (addr.toNat / 16 / 16 / 16 % 16) = c at first read
  generalize Disassembler.hexDigit (addr.toNat / 16 / 16 % 16) = d at second read
  generalize [Disassembler.hexDigit (addr.toNat / 16 % 16),
    Disassembler.hexDigit (addr.toNat % 16)] = rest at read
  have bare := skipPrefix_plain c rest second.2.2.2
  have unsigned : scanUnsigned (c :: d :: rest) = some addr.toNat := by
    unfold scanUnsigned
    rw [bare, read]
    simp
  refine ⟨?_, bare⟩
  unfold scanHex
  rw [List.dropWhile_cons_of_neg (by rw [first.1]; exact nofun)]
  split
  · rename_i tail same
    injection same with here _
    exact absurd here first.2.1
  · rename_i tail same
    injection same with here _
    exact absurd here first.2.2.1
  · rw [unsigned]
    have bound : min addr.toNat (2 ^ 64 - 1) = addr.toNat := by omega
    rw [Option.map_some, bound]

/-- A scanned address is in range. -/
theorem scanned_bound (addr : Word) :
    ((some (BitVec.ofNat 32 addr.toNat)).bind fun a =>
      if a.toNat > 0xffff then none else some (a.setWidth 16)) = some addr := by
  rw [Option.bind_some, if_neg]
  · congr 1
    bv_omega
  · simp only [BitVec.toNat_ofNat]
    omega

/-- An address is read back from its hexadecimal form. -/
theorem hexToAddr_addrToHex (addr : Word) : hexToAddr (addrToHex addr) = some addr := by
  have skipped : skipPrefix (addrToHex addr) = Disassembler.fmtHex addr.toNat 4 := rfl
  unfold hexToAddr
  rw [skipped, (scanHex_fmtHex addr).1]
  exact scanned_bound addr

end Hex

/-- Equal in type, and in the value of that type. -/
def RdbPropertyValue.SameValue (value other : RdbPropertyValue) : Prop :=
  value.type = other.type ∧
    match value.type with
    | .string => value.stringValue = other.stringValue
    | .integer => value.intValue = other.intValue
    | .boolean => value.boolValue = other.boolValue
    | .double => value.doubleValue = other.doubleValue

/-- A normalized property is read back. -/
theorem propertyFromJson_toJson {value : RdbPropertyValue} (normal : value.normalize = value) :
    value.SameValue (propertyFromJson (propertyToJson value)) := by
  unfold propertyToJson RdbPropertyValue.SameValue
  cases type : value.type with
  | string =>
    unfold RdbPropertyValue.normalize at normal
    rw [if_pos type] at normal
    have text : normalizeRdbText value.stringValue = value.stringValue :=
      congrArg RdbPropertyValue.stringValue normal
    refine ⟨rfl, ?_⟩
    change value.stringValue = normalizeRdbText (normalizeRdbText value.stringValue)
    rw [text, text]
  | integer => exact ⟨rfl, (BitVec.ofInt_toInt).symm⟩
  | boolean => exact ⟨rfl, rfl⟩
  | double => exact ⟨rfl, rfl⟩

namespace RdbObject

/-- Equal, property by property and link by link, but for the size of an object that has none. -/
structure SameObject (object read : RdbObject) : Prop where
  /-- `address`. -/
  address : object.address = read.address
  /-- `type`. -/
  type : object.type = read.type
  /-- `name`. -/
  name : object.name = read.name
  /-- `hasSize`. -/
  hasSize : object.hasSize = read.hasSize
  /-- `size`, of an object that has one. -/
  size : object.hasSize = true → object.size = read.size
  /-- `comment`. -/
  comment : object.comment = read.comment
  /-- `properties`: the same keys with the same values. -/
  properties : List.Forall₂ (fun one other => one.1 = other.1 ∧ one.2.SameValue other.2)
    object.properties read.properties
  /-- `links`, in order. -/
  links : object.links = read.links

end RdbObject

section Members

variable (obj : RdbObject)

theorem member_address :
    (objectToJson obj).member (ascii "address") = some (.string (addrToHex obj.address)) := by
  unfold objectToJson Json.member
  dsimp only
  iterate 5 rw [Json.lookup_setIf_of_ne (by decide)]
  rw [SortedMap.lookup_insert_of_ne (by decide), SortedMap.lookup_insert_self]

theorem member_type :
    (objectToJson obj).member (ascii "type") =
      some (.string (rdbObjectTypeToString obj.type)) := by
  unfold objectToJson Json.member
  dsimp only
  iterate 5 rw [Json.lookup_setIf_of_ne (by decide)]
  rw [SortedMap.lookup_insert_self]

/-- Of the members that are written under a condition, none is there at first. -/
theorem lookup_start {key : Text} (notAddress : key ≠ ascii "address")
    (notType : key ≠ ascii "type") (address type : Json) :
    SortedMap.lookup key (SortedMap.insert TextBefore (ascii "type") type
      (SortedMap.insert TextBefore (ascii "address") address [])) = none := by
  rw [SortedMap.lookup_insert_of_ne notType, SortedMap.lookup_insert_of_ne notAddress]
  rfl

theorem member_name :
    (objectToJson obj).member (ascii "name") =
      if obj.name ≠ [] then some (.string obj.name) else none := by
  unfold objectToJson Json.member
  dsimp only
  iterate 4 rw [Json.lookup_setIf_of_ne (by decide)]
  rw [Json.lookup_setIf_self, lookup_start (by decide) (by decide)]

theorem member_size :
    (objectToJson obj).member (ascii "size") =
      if obj.hasSize = true then some (.integer obj.size.toNat) else none := by
  unfold objectToJson Json.member
  dsimp only
  iterate 3 rw [Json.lookup_setIf_of_ne (by decide)]
  rw [Json.lookup_setIf_self, Json.lookup_setIf_of_ne (by decide),
    lookup_start (by decide) (by decide)]

theorem member_comment :
    (objectToJson obj).member (ascii "comment") =
      if normalizeRdbText obj.comment ≠ [] then
        some (.string (normalizeRdbText obj.comment))
      else none := by
  unfold objectToJson Json.member
  dsimp only
  iterate 2 rw [Json.lookup_setIf_of_ne (by decide)]
  rw [Json.lookup_setIf_self]
  iterate 2 rw [Json.lookup_setIf_of_ne (by decide)]
  rw [lookup_start (by decide) (by decide)]

theorem member_properties :
    (objectToJson obj).member (ascii "properties") =
      if obj.properties ≠ [] then
        some (.object (obj.properties.foldl (fun props kv =>
          SortedMap.insert TextBefore kv.1 (propertyToJson kv.2) props) []))
      else none := by
  unfold objectToJson Json.member
  dsimp only
  rw [Json.lookup_setIf_of_ne (by decide), Json.lookup_setIf_self]
  iterate 3 rw [Json.lookup_setIf_of_ne (by decide)]
  rw [lookup_start (by decide) (by decide)]

theorem member_links :
    (objectToJson obj).member (ascii "links") =
      if obj.links ≠ [] then
        some (.array (obj.links.map fun target => Json.string (addrToHex target)))
      else none := by
  unfold objectToJson Json.member
  dsimp only
  rw [Json.lookup_setIf_self]
  iterate 4 rw [Json.lookup_setIf_of_ne (by decide)]
  rw [lookup_start (by decide) (by decide)]

end Members

theorem rdbObjectTypeFromString_toString (type : RdbObjectType) :
    rdbObjectTypeFromString (rdbObjectTypeToString type) = type := by
  cases type <;> decide

/-- The values of a sorted map, entered one after another under the same keys, make a sorted map
again. -/
theorem foldl_insert_values {ν μ : Type} {entries : List (Text × ν)}
    (sorted : SortedMap.Sorted TextBefore entries) (f : ν → μ) :
    entries.foldl (fun map entry => SortedMap.insert TextBefore entry.1 (f entry.2) map) [] =
      entries.map fun entry => (entry.1, f entry.2) := by
  have mapped : SortedMap.Sorted TextBefore (entries.map fun entry => (entry.1, f entry.2)) :=
    List.pairwise_map.mpr sorted
  calc entries.foldl (fun map entry => SortedMap.insert TextBefore entry.1 (f entry.2) map) []
      = (entries.map fun entry => (entry.1, f entry.2)).foldl
          (fun map entry => SortedMap.insert TextBefore entry.1 entry.2 map) [] := by
        rw [List.foldl_map]
    _ = entries.map fun entry => (entry.1, f entry.2) := SortedMap.foldl_insert mapped

theorem objectFromJson_properties {obj : RdbObject} (sorted : obj.PropertiesSorted) :
    (objectFromJson (objectToJson obj)).properties =
      obj.properties.map fun kv => (kv.1, propertyFromJson (propertyToJson kv.2)) := by
  unfold objectFromJson
  dsimp only
  rw [member_properties, foldl_insert_values sorted]
  by_cases none' : obj.properties = []
  · rw [if_neg (not_not.mpr none'), none']
    rfl
  · rw [if_pos none']
    dsimp only
    have mapped : SortedMap.Sorted TextBefore
        (obj.properties.map fun kv => (kv.1, propertyToJson kv.2)) := List.pairwise_map.mpr sorted
    rw [foldl_insert_values mapped, List.map_map]
    rfl

theorem objectFromJson_links (obj : RdbObject) :
    (objectFromJson (objectToJson obj)).links = obj.links := by
  unfold objectFromJson
  dsimp only
  rw [member_links]
  by_cases none' : obj.links = []
  · rw [if_neg (not_not.mpr none'), none']
  · rw [if_pos none']
    dsimp only
    rw [List.filterMap_map]
    have each : (linkFromJson ∘ fun target => Json.string (addrToHex target)) = some :=
      funext hexToAddr_addrToHex
    rw [each, List.filterMap_some]

theorem objectFromJson_address (obj : RdbObject) :
    (objectFromJson (objectToJson obj)).address = obj.address := by
  unfold objectFromJson
  dsimp only
  rw [member_address]
  dsimp only
  rw [hexToAddr_addrToHex]
  rfl

/-- A normalized object is read back. -/
theorem objectFromJson_toJson {obj : RdbObject} (normal : obj.normalizeText = obj)
    (sorted : obj.PropertiesSorted) : obj.SameObject (objectFromJson (objectToJson obj)) := by
  obtain ⟨comment, values⟩ := obj.normalizeText_eq_iff.mp normal
  refine ⟨(objectFromJson_address obj).symm, ?_, ?_, ?_, ?_, ?_, ?_,
    (objectFromJson_links obj).symm⟩
  · unfold objectFromJson
    dsimp only
    rw [member_type]
    exact (rdbObjectTypeFromString_toString obj.type).symm
  · unfold objectFromJson
    dsimp only
    rw [member_name]
    by_cases unnamed : obj.name = []
    · rw [if_neg (not_not.mpr unnamed), unnamed]
    · rw [if_pos unnamed]
  · unfold objectFromJson
    dsimp only
    rw [member_size]
    cases sized : obj.hasSize with
    | false => rfl
    | true => rfl
  · intro sized
    unfold objectFromJson
    dsimp only
    rw [member_size, if_pos sized]
    dsimp only
    rw [BitVec.ofInt_natCast, BitVec.ofNat_toNat, BitVec.setWidth_eq]
  · unfold objectFromJson
    dsimp only
    rw [member_comment, comment]
    by_cases silent : obj.comment = []
    · rw [if_neg (not_not.mpr silent), silent]
    · rw [if_pos silent]
      exact comment.symm
  · rw [objectFromJson_properties sorted, List.forall₂_map_right_iff, List.forall₂_same]
    exact fun kv listed => ⟨rfl, propertyFromJson_toJson (values kv listed)⟩

namespace RdbController

/-- Reading the written objects of a table, one after another. -/
theorem foldl_put_objects (stored : Word → Option RdbObject) (items : List RdbObject)
    (each : ∀ obj ∈ items, stored obj.address = some obj) (rdb : RdbController) (addr : Word) :
    ((items.map objectToJson).foldl put rdb).objects addr =
      if ∃ obj ∈ items, obj.address = addr then
        (stored addr).map fun obj => objectFromJson (objectToJson obj)
      else rdb.objects addr := by
  induction items generalizing rdb with
  | nil => simp
  | cons first rest inductionHypothesis =>
    rw [List.map_cons, List.foldl_cons,
      inductionHypothesis fun obj listed => each obj (List.mem_cons_of_mem _ listed)]
    have here : (rdb.put (objectToJson first)).objects =
        Function.update rdb.objects first.address (some (objectFromJson (objectToJson first))) := by
      rw [← objectFromJson_address first]
      rfl
    by_cases later : ∃ obj ∈ rest, obj.address = addr
    · obtain ⟨obj, listed, place⟩ := later
      rw [if_pos ⟨obj, listed, place⟩, if_pos ⟨obj, List.mem_cons_of_mem _ listed, place⟩]
    · rw [if_neg later, here]
      by_cases place : first.address = addr
      · rw [if_pos ⟨first, List.mem_cons_self, place⟩, ← place, Function.update_self,
          each first List.mem_cons_self]
        rfl
      · rw [Function.update_of_ne (Ne.symm place), if_neg]
        rintro ⟨obj, listed, there⟩
        rcases List.mem_cons.mp listed with same | inRest
        · exact place (same ▸ there)
        · exact later ⟨obj, inRest, there⟩

/-- The objects of a controller, written and read into another without objects. -/
theorem readBack_objects (rdb other : RdbController) (empty : ∀ addr, other.objects addr = none)
    (addr : Word) :
    ((rdb.listObjects.map objectToJson).foldl put other).objects addr =
      (rdb.objects addr).map fun obj => objectFromJson (objectToJson obj) := by
  rw [foldl_put_objects rdb.objects rdb.listObjects
    (fun obj listed => (rdb.mem_listObjects obj).mp listed)]
  by_cases here : ∃ obj ∈ rdb.listObjects, obj.address = addr
  · rw [if_pos here]
  · rw [if_neg here, empty]
    cases stored : rdb.objects addr with
    | none => rfl
    | some obj =>
      have place := rdb.keyed addr obj stored
      have listed := (rdb.mem_listObjects obj).mpr (by rw [place]; exact stored)
      exact absurd ⟨obj, listed, place⟩ here

/-- Reading objects keeps the properties of all objects maps. -/
theorem PropertiesSorted.foldl_put {rdb : RdbController} (sorted : rdb.PropertiesSorted)
    (items : List Json) : (items.foldl put rdb).PropertiesSorted := by
  induction items generalizing rdb with
  | nil => exact sorted
  | cons first rest inductionHypothesis =>
    refine inductionHypothesis fun addr obj found => ?_
    have here : (rdb.put first).objects =
        Function.update rdb.objects (objectFromJson first).address
          (some (objectFromJson first)) := rfl
    rw [here] at found
    by_cases place : addr = (objectFromJson first).address
    · rw [place, Function.update_self] at found
      rw [← Option.some.inj found]
      exact propertiesSorted_objectFromJson first
    · rw [Function.update_of_ne place] at found
      exact sorted addr obj found

end RdbController

namespace RdbImpl

/-- The states that the operations of the controller reach. The objects that callers pass hold
maps. -/
inductive Reachable : RdbImpl → Prop
  | new : Reachable new
  | mutate {impl : RdbImpl} (reachable : Reachable impl) (mutation : RdbMutation)
    (sorted : mutation.Sorted) : Reachable { impl with rdb := (mutation.apply impl.rdb).1 }
  | load {impl : RdbImpl} (reachable : Reachable impl) (files : RdbFiles) (path : Text) :
    Reachable (impl.load files path).1
  | reload {impl : RdbImpl} (reachable : Reachable impl) (files : RdbFiles) :
    Reachable (impl.reload files).1
  | save {impl : RdbImpl} (reachable : Reachable impl) (files : RdbFiles)
    (outcome : WriteOutcome) : Reachable (impl.save files outcome).2.1
  | saveAs {impl : RdbImpl} (reachable : Reachable impl) (files : RdbFiles) (path : Text)
    (outcome : WriteOutcome) : Reachable (impl.saveAs files path outcome).2.1
  | close {impl : RdbImpl} (reachable : Reachable impl) : Reachable impl.close
  | setRomIdentity {impl : RdbImpl} (reachable : Reachable impl) (identity : RdbRomIdentity) :
    Reachable (impl.setRomIdentity identity)
  | initializeRdb {impl : RdbImpl} (reachable : Reachable impl) (platform : Text)
    (rom : RdbRomIdentity) (path : Text) : Reachable (impl.initializeRdb platform rom path)

theorem propertiesSorted_none {rdb : RdbController} (empty : ∀ addr, rdb.objects addr = none) :
    rdb.PropertiesSorted :=
  fun addr _ found => absurd ((empty addr).symm.trans found).symm (Option.some_ne_none _)

theorem propertiesSorted_rdbFromJson {impl : RdbImpl} (sorted : impl.rdb.PropertiesSorted)
    (root : Json) : (rdbFromJson root impl).1.rdb.PropertiesSorted := by
  have cleared : impl.rdb.clear.PropertiesSorted := propertiesSorted_none fun _ => rfl
  unfold rdbFromJson
  split
  · dsimp only
    split
    · exact cleared.foldl_put _
    · exact cleared
  · exact sorted

theorem propertiesSorted_load {impl : RdbImpl} (sorted : impl.rdb.PropertiesSorted)
    (files : RdbFiles) (path : Text) : (impl.load files path).1.rdb.PropertiesSorted := by
  have cleared : impl.rdb.clear.PropertiesSorted := propertiesSorted_none fun _ => rfl
  unfold load
  split
  · exact sorted
  · exact cleared
  · rename_i root found
    have read : (rdbFromJson root { impl with rdb := impl.rdb.clear }).1.rdb.PropertiesSorted :=
      propertiesSorted_rdbFromJson cleared root
    dsimp only
    split
    · exact read
    · exact propertiesSorted_none fun _ => rfl

theorem propertiesSorted_saveAs {impl : RdbImpl} (sorted : impl.rdb.PropertiesSorted)
    (files : RdbFiles) (path : Text) (outcome : WriteOutcome) :
    (impl.saveAs files path outcome).2.1.rdb.PropertiesSorted := by
  unfold saveAs
  split
  · exact sorted
  · cases outcome with
    | notOpened => exact sorted
    | removed => exact sorted
    | written => exact sorted

/-- In every reachable state the properties of all objects are maps. -/
theorem Reachable.propertiesSorted {impl : RdbImpl} (reachable : Reachable impl) :
    impl.rdb.PropertiesSorted := by
  induction reachable with
  | new => exact propertiesSorted_none fun _ => rfl
  | mutate _ mutation sorted inductionHypothesis =>
    exact (RdbController.mutated_apply _ mutation).propertiesSorted sorted inductionHypothesis
  | load _ files path inductionHypothesis => exact propertiesSorted_load inductionHypothesis _ _
  | reload _ files inductionHypothesis =>
    unfold RdbImpl.reload
    split
    · exact inductionHypothesis
    · exact propertiesSorted_load inductionHypothesis _ _
  | save _ files outcome inductionHypothesis =>
    unfold RdbImpl.save
    split
    · exact inductionHypothesis
    · split
      · exact inductionHypothesis
      · exact propertiesSorted_saveAs inductionHypothesis _ _ _
  | saveAs _ files path outcome inductionHypothesis =>
    exact propertiesSorted_saveAs inductionHypothesis _ _ _
  | close => exact propertiesSorted_none fun _ => rfl
  | setRomIdentity _ identity inductionHypothesis => exact inductionHypothesis
  | initializeRdb => exact propertiesSorted_none fun _ => rfl

section Root

variable (impl : RdbImpl)

theorem member_format : impl.rdbToJson.member (ascii "format") = some (.string (ascii "rdb")) := by
  unfold rdbToJson Json.member
  dsimp only
  rw [SortedMap.lookup_insert_of_ne (by decide), Json.lookup_setIf_of_ne (by decide)]
  iterate 2 rw [SortedMap.lookup_insert_of_ne (by decide)]
  rw [SortedMap.lookup_insert_self]

theorem member_platform :
    impl.rdbToJson.member (ascii "platform") = some (.string impl.platform) := by
  unfold rdbToJson Json.member
  dsimp only
  rw [SortedMap.lookup_insert_of_ne (by decide), Json.lookup_setIf_of_ne (by decide),
    SortedMap.lookup_insert_of_ne (by decide), SortedMap.lookup_insert_self]

theorem member_version :
    impl.rdbToJson.member (ascii "version") = some (.integer impl.version.toInt) := by
  unfold rdbToJson Json.member
  dsimp only
  rw [SortedMap.lookup_insert_of_ne (by decide), Json.lookup_setIf_of_ne (by decide),
    SortedMap.lookup_insert_self]

/-- A complete identity is written, and read back whatever was known before. -/
theorem member_rom (complete : impl.romIdentity.isComplete = true) :
    ∃ members, impl.rdbToJson.member (ascii "rom") = some (.object members) ∧
      ∀ identity, romFromJson (.object members) identity = impl.romIdentity := by
  unfold rdbToJson Json.member
  dsimp only
  rw [SortedMap.lookup_insert_of_ne (by decide), Json.lookup_setIf_self, if_pos complete]
  refine ⟨_, rfl, fun identity => ?_⟩
  unfold romFromJson Json.member
  dsimp only
  rw [SortedMap.lookup_insert_of_ne (by decide), SortedMap.lookup_insert_of_ne (by decide),
    SortedMap.lookup_insert_self, SortedMap.lookup_insert_of_ne (by decide),
    SortedMap.lookup_insert_self, SortedMap.lookup_insert_self]
  dsimp only
  rw [BitVec.ofInt_natCast, BitVec.ofNat_toNat, BitVec.setWidth_eq]

theorem hasFormat_rdbToJson : hasFormat impl.rdbToJson = true := by
  unfold hasFormat
  rw [member_format]
  rfl

/-- The objects that a reader has afterwards. -/
theorem rdbFromJson_objects (reader : RdbImpl) (addr : Word) :
    (rdbFromJson impl.rdbToJson reader).1.rdb.objects addr =
      (impl.rdb.objects addr).map fun obj => objectFromJson (objectToJson obj) := by
  have written : impl.rdbToJson.member (ascii "objects") =
      some (.array (impl.rdb.listObjects.map objectToJson)) := SortedMap.lookup_insert_self _ _ _
  have read : (rdbFromJson impl.rdbToJson reader).1.rdb =
      (impl.rdb.listObjects.map objectToJson).foldl RdbController.put reader.rdb.clear := by
    rw [rdbFromJson, if_pos impl.hasFormat_rdbToJson, written]
  rw [read, RdbController.readBack_objects _ _ fun _ => rfl]

end Root

/-- The file format is lossless but for the size of an object that has none. Whatever the
controller that reads, in any state, it has the same platform, version and complete ROM identity
afterwards, and the same objects. -/
theorem rdbFromJson_rdbToJson {impl : RdbImpl} (reachable : Reachable impl) (reader : RdbImpl) :
    (rdbFromJson impl.rdbToJson reader).2 = true ∧
      (rdbFromJson impl.rdbToJson reader).1.platform = impl.platform ∧
      (rdbFromJson impl.rdbToJson reader).1.version = impl.version ∧
      (impl.romIdentity.isComplete = true →
        (rdbFromJson impl.rdbToJson reader).1.romIdentity = impl.romIdentity) ∧
      ∀ addr, Option.Rel RdbObject.SameObject (impl.rdb.objects addr)
        ((rdbFromJson impl.rdbToJson reader).1.rdb.objects addr) := by
  refine ⟨?_, ?_, ?_, fun complete => ?_, fun addr => ?_⟩
  · rw [rdbFromJson, if_pos impl.hasFormat_rdbToJson]
  · rw [rdbFromJson, if_pos impl.hasFormat_rdbToJson, member_platform]
  · rw [rdbFromJson, if_pos impl.hasFormat_rdbToJson, member_version]
    exact BitVec.ofInt_toInt
  · obtain ⟨members, written, readBack⟩ := impl.member_rom complete
    rw [rdbFromJson, if_pos impl.hasFormat_rdbToJson, written]
    exact readBack _
  · rw [rdbFromJson_objects]
    cases stored : impl.rdb.objects addr with
    | none => exact .none
    | some obj =>
      exact .some (objectFromJson_toJson (impl.rdb.normalized addr obj stored)
        (reachable.propertiesSorted addr obj stored))

/-- An object that has no size, with a number in its place. -/
def unsized : RdbObject where
  address := 0
  type := .data
  name := ascii "table"
  size := 16
  hasSize := false
  comment := []
  properties := []
  links := []

/-- A controller with that object. -/
def unsizedStored : RdbImpl :=
  { new with rdb := (RdbMutation.apply new.rdb (.addObject unsized)).1 }

theorem reachable_unsizedStored : Reachable unsizedStored :=
  Reachable.new.mutate (.addObject unsized) List.Pairwise.nil

/-- The object is read back. -/
theorem rdbFromJson_rdbToJson_unsized :
    Option.Rel RdbObject.SameObject (unsizedStored.rdb.objects 0)
      ((rdbFromJson unsizedStored.rdbToJson new).1.rdb.objects 0) :=
  (rdbFromJson_rdbToJson reachable_unsizedStored new).2.2.2.2 0

/-- Its number is not. -/
theorem rdbToJson_loses_size :
    Reachable unsizedStored ∧
      ¬Option.Rel (fun stored read => stored.size = read.size) (unsizedStored.rdb.objects 0)
        ((rdbFromJson unsizedStored.rdbToJson new).1.rdb.objects 0) := by
  refine ⟨reachable_unsizedStored, fun same => ?_⟩
  have stored : unsizedStored.rdb.objects 0 = some unsized := rfl
  have read : (rdbFromJson unsizedStored.rdbToJson new).1.rdb.objects 0 =
      some (objectFromJson (objectToJson unsized)) :=
    (unsizedStored.rdbFromJson_objects new 0).trans (congrArg (Option.map _) stored)
  generalize (rdbFromJson unsizedStored.rdbToJson new).1.rdb.objects 0 = found at same read
  rw [read, stored] at same
  cases same with
  | some sizes => exact absurd sizes (by decide)

end RdbImpl

end VectorDebugger

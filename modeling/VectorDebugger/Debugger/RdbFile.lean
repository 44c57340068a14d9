import VectorDebugger.Debugger.Disassembler
import VectorDebugger.Debugger.LoadedSymbols
import VectorDebugger.Debugger.RdbController

/-!
# The file of the ROM database

`RdbController` reads its objects from a JSON file and writes them to one. The JSON library stands
between: a file is a value here, or text that the library cannot parse. The reader fills the live
state field by field, the writer goes through a temporary file.
-/

namespace VectorDebugger

/-- A value of the JSON library. The members of an object are a map. -/
inductive Json
  | null
  | string (text : Text)
  | boolean (value : Bool)
  | integer (value : Int)
  | float (value : Float)
  | object (members : List (Text × Json))
  | array (items : List Json)

namespace Json

/-- `contains` and `operator[]`: the member of an object, none where there is none. -/
def member (json : Json) (key : Text) : Option Json :=
  match json with
  | .object members => SortedMap.lookup key members
  | _ => none

/-- Set a member when it is given. -/
def setIf (given : Prop) [Decidable given] (key : Text) (value : Json)
    (members : List (Text × Json)) : List (Text × Json) :=
  if given then SortedMap.insert TextBefore key value members else members

theorem lookup_setIf_self (given : Prop) [Decidable given] (key : Text) (value : Json)
    (members : List (Text × Json)) :
    SortedMap.lookup key (setIf given key value members) =
      if given then some value else SortedMap.lookup key members := by
  unfold setIf
  split
  · exact SortedMap.lookup_insert_self key value members
  · rfl

theorem lookup_setIf_of_ne {key other : Text} (different : other ≠ key) (given : Prop)
    [Decidable given] (value : Json) (members : List (Text × Json)) :
    SortedMap.lookup other (setIf given key value members) = SortedMap.lookup other members := by
  unfold setIf
  split
  · exact SortedMap.lookup_insert_of_ne different value members
  · rfl

end Json

/-- `addrToHex`: the format `0x%04X`. -/
def addrToHex (addr : Word) : Text := ascii "0x" ++ Disassembler.fmtHex addr.toNat 4

/-- The value of a hexadecimal digit. -/
def hexValue (c : Byte) : Option Nat :=
  if 0x30 ≤ c ∧ c ≤ 0x39 then some (c.toNat - 0x30)
  else if 0x41 ≤ c ∧ c ≤ 0x46 then some (c.toNat - 0x37)
  else if 0x61 ≤ c ∧ c ≤ 0x66 then some (c.toNat - 0x57)
  else none

/-- The number that the hexadecimal digits at the front of a text make, after the given one, and
whether there is a digit. -/
def scanDigits : Nat → Bool → Text → Option Nat
  | value, some', [] => if some' then some value else none
  | value, some', c :: rest =>
    match hexValue c with
    | some digit => scanDigits (16 * value + digit) true rest
    | none => if some' then some value else none

/-- `isspace` in the C locale. -/
def isSpace (c : Byte) : Bool := c == 0x20 || (0x09 ≤ c && c ≤ 0x0d)

/-- Skip a prefix `0x`. -/
def skipPrefix : Text → Text
  | 0x30 :: c :: rest => if c = 0x78 ∨ c = 0x58 then rest else 0x30 :: c :: rest
  | text => text

/-- The unsigned digits of `%x`, with a prefix of their own. The zero of the prefix is a digit. -/
def scanUnsigned (text : Text) : Option Nat :=
  scanDigits 0 (text.head? == some 0x30) (skipPrefix text)

/-- `sscanf(text, "%x", &a)`: white space, a sign, digits. A number that does not fit into 64 bits
is the largest that does; its low half is stored. -/
def scanHex (text : Text) : Option (BitVec 32) :=
  match text.dropWhile isSpace with
  | 0x2d :: rest => (scanUnsigned rest).map fun value =>
      if value < 2 ^ 64 then BitVec.ofInt 32 (-value) else 0xffffffff
  | 0x2b :: rest => (scanUnsigned rest).map fun value => BitVec.ofNat 32 (min value (2 ^ 64 - 1))
  | rest => (scanUnsigned rest).map fun value => BitVec.ofNat 32 (min value (2 ^ 64 - 1))

/-- `hexToAddr`. -/
def hexToAddr (s : Text) : Option Word :=
  (scanHex (skipPrefix s)).bind fun a => if a.toNat > 0xffff then none else some (a.setWidth 16)

/-- `rdbObjectTypeToString`. -/
def rdbObjectTypeToString : RdbObjectType → Text
  | .function => ascii "function"
  | .variable => ascii "variable"
  | .data => ascii "data"
  | .table => ascii "table"
  | .string => ascii "string"
  | .code => ascii "code"
  | .label => ascii "label"
  | .unknown => ascii "unknown"

/-- `rdbObjectTypeFromString`: upper and lower case are the same. -/
def rdbObjectTypeFromString (str : Text) : RdbObjectType :=
  let lower := str.map fun c => if 0x41 ≤ c ∧ c ≤ 0x5a then c + 0x20 else c
  if lower = ascii "function" then .function
  else if lower = ascii "variable" then .variable
  else if lower = ascii "data" then .data
  else if lower = ascii "table" then .table
  else if lower = ascii "string" then .string
  else if lower = ascii "code" then .code
  else if lower = ascii "label" then .label
  else .unknown

/-- The member that `objectToJson` writes for a property. -/
def propertyToJson (value : RdbPropertyValue) : Json :=
  match value.type with
  | .string => .string (normalizeRdbText value.stringValue)
  | .integer => .integer value.intValue.toInt
  | .boolean => .boolean value.boolValue
  | .double => .float value.doubleValue

/-- The property that `objectFromJson` reads from a member. -/
def propertyFromJson (val : Json) : RdbPropertyValue :=
  let pv : RdbPropertyValue :=
    { type := .string, stringValue := [], intValue := 0, boolValue := false, doubleValue := 0 }
  match val with
  | .string text => { pv with type := .string, stringValue := normalizeRdbText text }
  | .boolean value => { pv with type := .boolean, boolValue := value }
  | .integer value => { pv with type := .integer, intValue := BitVec.ofInt 64 value }
  | .float value => { pv with type := .double, doubleValue := value }
  | _ => pv

/-- `objectToJson`. -/
def objectToJson (obj : RdbObject) : Json :=
  let j := SortedMap.insert TextBefore (ascii "address") (.string (addrToHex obj.address)) []
  let j := SortedMap.insert TextBefore (ascii "type")
    (.string (rdbObjectTypeToString obj.type)) j
  let j := Json.setIf (obj.name ≠ []) (ascii "name") (.string obj.name) j
  let j := Json.setIf (obj.hasSize = true) (ascii "size") (.integer obj.size.toNat) j
  let comment := normalizeRdbText obj.comment
  let j := Json.setIf (comment ≠ []) (ascii "comment") (.string comment) j
  let props := obj.properties.foldl (fun props kv =>
    SortedMap.insert TextBefore kv.1 (propertyToJson kv.2) props) []
  let j := Json.setIf (obj.properties ≠ []) (ascii "properties") (.object props) j
  let linksArr := obj.links.map fun target => Json.string (addrToHex target)
  let j := Json.setIf (obj.links ≠ []) (ascii "links") (.array linksArr) j
  .object j

/-- The link that `objectFromJson` reads from an item. -/
def linkFromJson : Json → Option Word
  | .string text => hexToAddr text
  | _ => none

/-- `objectFromJson`. -/
def objectFromJson (j : Json) : RdbObject where
  address :=
    match j.member (ascii "address") with
    | some (.string text) => (hexToAddr text).getD 0
    | _ => 0
  type :=
    match j.member (ascii "type") with
    | some (.string text) => rdbObjectTypeFromString text
    | _ => .unknown
  name :=
    match j.member (ascii "name") with
    | some (.string text) => text
    | _ => []
  size :=
    match j.member (ascii "size") with
    | some (.integer value) => BitVec.ofInt 32 value
    | some (.float value) => value.toUInt32.toBitVec
    | _ => 0
  hasSize :=
    match j.member (ascii "size") with
    | some (.integer _) => true
    | some (.float _) => true
    | _ => false
  comment :=
    match j.member (ascii "comment") with
    | some (.string text) => normalizeRdbText text
    | _ => []
  properties :=
    match j.member (ascii "properties") with
    | some (.object members) => members.foldl (fun properties it =>
        SortedMap.insert TextBefore it.1 (propertyFromJson it.2) properties) []
    | _ => []
  links :=
    match j.member (ascii "links") with
    | some (.array items) => items.filterMap linkFromJson
    | _ => []

theorem normalize_propertyFromJson (val : Json) :
    (propertyFromJson val).normalize = propertyFromJson val := by
  cases val with
  | string text =>
    unfold propertyFromJson RdbPropertyValue.normalize
    simp
  | _ => rfl

/-- Whatever the members, the properties read are in order, and their texts are normalized. -/
theorem readProperties_spec (members : List (Text × Json))
    (properties : List (Text × RdbPropertyValue))
    (sorted : SortedMap.Sorted TextBefore properties)
    (normal : ∀ property ∈ properties, property.2.normalize = property.2) :
    let read := members.foldl (fun properties it =>
      SortedMap.insert TextBefore it.1 (propertyFromJson it.2) properties) properties
    SortedMap.Sorted TextBefore read ∧ ∀ property ∈ read, property.2.normalize = property.2 := by
  induction members generalizing properties with
  | nil => exact ⟨sorted, normal⟩
  | cons first rest inductionHypothesis =>
    refine inductionHypothesis _ (SortedMap.Sorted.insert sorted _ _) fun property listed => ?_
    rcases SortedMap.mem_insert listed with new | old
    · rw [new]
      exact normalize_propertyFromJson first.2
    · exact normal property old

/-- An object that is read is normalized. -/
theorem normalizeText_objectFromJson (j : Json) :
    (objectFromJson j).normalizeText = objectFromJson j := by
  rw [RdbObject.normalizeText_eq_iff]
  constructor
  · unfold objectFromJson
    dsimp only
    split
    · exact RdbText.normalizeRdbText_idempotent _
    · rfl
  · unfold objectFromJson
    dsimp only
    split
    · exact (readProperties_spec _ [] List.Pairwise.nil nofun).2
    · exact nofun

/-- The properties of an object that is read are a map. -/
theorem propertiesSorted_objectFromJson (j : Json) : (objectFromJson j).PropertiesSorted := by
  unfold objectFromJson RdbObject.PropertiesSorted
  dsimp only
  split
  · exact (readProperties_spec _ [] List.Pairwise.nil nofun).1
  · exact List.Pairwise.nil

namespace RdbController

/-- `objects.clear()`. -/
def clear (rdb : RdbController) : RdbController := { empty with dirty := rdb.dirty }

/-- `objects[obj.address] = obj`, with an object that is read. -/
def put (rdb : RdbController) (j : Json) : RdbController :=
  { rdb.store (objectFromJson j) (normalizeText_objectFromJson j) with dirty := rdb.dirty }

/-- The controller, saved: nothing else changes. -/
def clean (rdb : RdbController) : RdbController := { rdb with dirty := false }

end RdbController

/-- `RdbRomIdentity`. -/
structure RdbRomIdentity where
  /-- `file`. -/
  file : Text
  /-- `size`. -/
  size : BitVec 64
  /-- `sha256`. -/
  sha256 : Text
deriving DecidableEq, Repr

/-- `RdbRomIdentity::isComplete`. -/
def RdbRomIdentity.isComplete (identity : RdbRomIdentity) : Bool :=
  !identity.file.isEmpty && 0 < identity.size && !identity.sha256.isEmpty

/-- `RdbController::Impl`. -/
structure RdbImpl where
  /-- `path`. -/
  path : Text
  /-- `platform`. -/
  platform : Text
  /-- `version`. -/
  version : BitVec 32
  /-- `romIdentity`. -/
  romIdentity : RdbRomIdentity
  /-- `loaded`. -/
  loaded : Bool
  /-- `fileExistsOnDisk`. -/
  fileExistsOnDisk : Bool
  /-- `objects` and `dirty`. -/
  rdb : RdbController

/-- A file, as the JSON library reads it. -/
inductive RdbFile
  /-- The value at the front of the file. -/
  | json (root : Json)
  /-- The library throws. -/
  | malformed

/-- The files by their paths; none where none can be opened. -/
abbrev RdbFiles := Text → Option RdbFile

/-- How the attempt to write a file ends. -/
inductive WriteOutcome
  /-- The temporary file cannot be opened. -/
  | notOpened
  /-- The library throws, or writing or renaming fails, and the temporary file is removed. -/
  | removed
  /-- The temporary file has taken the place of the file. -/
  | written
deriving DecidableEq, Repr

namespace RdbImpl

/-- A new `RdbController`. -/
def new : RdbImpl where
  path := []
  platform := ascii "vector06c"
  version := 1
  romIdentity := { file := [], size := 0, sha256 := [] }
  loaded := false
  fileExistsOnDisk := false
  rdb := RdbController.empty

/-- `rdbToJson`. -/
def rdbToJson (impl : RdbImpl) : Json :=
  let root := SortedMap.insert TextBefore (ascii "format") (.string (ascii "rdb")) []
  let root := SortedMap.insert TextBefore (ascii "platform") (.string impl.platform) root
  let root := SortedMap.insert TextBefore (ascii "version") (.integer impl.version.toInt) root
  let rom := SortedMap.insert TextBefore (ascii "file") (.string impl.romIdentity.file) []
  let rom := SortedMap.insert TextBefore (ascii "size") (.integer impl.romIdentity.size.toNat) rom
  let rom := SortedMap.insert TextBefore (ascii "sha256") (.string impl.romIdentity.sha256) rom
  let root := Json.setIf (impl.romIdentity.isComplete = true) (ascii "rom") (.object rom) root
  .object (SortedMap.insert TextBefore (ascii "objects")
    (.array (impl.rdb.listObjects.map objectToJson)) root)

/-- `root.contains("format")` and `root["format"] == "rdb"`. -/
def hasFormat (root : Json) : Bool :=
  match root.member (ascii "format") with
  | some (.string text) => text == ascii "rdb"
  | _ => false

/-- The ROM identity after reading a member. -/
def romFromJson (rom : Json) (identity : RdbRomIdentity) : RdbRomIdentity where
  file :=
    match rom.member (ascii "file") with
    | some (.string text) => text
    | _ => identity.file
  size :=
    match rom.member (ascii "size") with
    | some (.integer value) => BitVec.ofInt 64 value
    | some (.float value) => value.toUInt64.toBitVec
    | _ => identity.size
  sha256 :=
    match rom.member (ascii "sha256") with
    | some (.string text) => text
    | _ => identity.sha256

/-- `rdbFromJson`, with its result. Without the format tag nothing is read. -/
def rdbFromJson (root : Json) (impl : RdbImpl) : RdbImpl × Bool :=
  if hasFormat root then
    ({ impl with
        platform :=
          match root.member (ascii "platform") with
          | some (.string text) => text
          | _ => impl.platform
        version :=
          match root.member (ascii "version") with
          | some (.integer value) => BitVec.ofInt 32 value
          | some (.float value) => value.toInt32.toBitVec
          | _ => impl.version
        romIdentity :=
          match root.member (ascii "rom") with
          | some (.object members) => romFromJson (.object members) impl.romIdentity
          | _ => impl.romIdentity
        rdb :=
          match root.member (ascii "objects") with
          | some (.array items) => items.foldl RdbController.put impl.rdb.clear
          | _ => impl.rdb.clear },
      true)
  else (impl, false)

/-- `RdbController::load`, with its result. -/
def load (files : RdbFiles) (path : Text) (impl : RdbImpl) : RdbImpl × Bool :=
  match files path with
  | none => (impl, false)
  | some .malformed => ({ impl with rdb := impl.rdb.clear }, false)
  | some (.json root) =>
    let read := rdbFromJson root { impl with rdb := impl.rdb.clear }
    if read.2 then
      ({ read.1 with path, loaded := true, fileExistsOnDisk := true, rdb := read.1.rdb.clean },
        true)
    else ({ read.1 with rdb := read.1.rdb.clear }, false)

/-- `RdbController::reload`, with its result. -/
def reload (files : RdbFiles) (impl : RdbImpl) : RdbImpl × Bool :=
  if impl.path = [] then (impl, false) else impl.load files impl.path

/-- `RdbController::saveAs`, with its result and the files it leaves. -/
def saveAs (files : RdbFiles) (path : Text) (outcome : WriteOutcome) (impl : RdbImpl) :
    RdbFiles × RdbImpl × Bool :=
  if !impl.rdb.dirty && impl.fileExistsOnDisk && path == impl.path then (files, impl, true)
  else
    let tmpPath := path ++ ascii ".tmp"
    match outcome with
    | .notOpened => (files, impl, false)
    | .removed => (Function.update files tmpPath none, impl, false)
    | .written =>
      (Function.update (Function.update files tmpPath none) path (some (.json impl.rdbToJson)),
        { impl with path, fileExistsOnDisk := true, rdb := impl.rdb.clean }, true)

/-- `RdbController::save`, with its result and the files it leaves. -/
def save (files : RdbFiles) (outcome : WriteOutcome) (impl : RdbImpl) :
    RdbFiles × RdbImpl × Bool :=
  if !impl.rdb.dirty then (files, impl, true)
  else if impl.path = [] then (files, impl, true)
  else impl.saveAs files impl.path outcome

/-- `RdbController::close`: as new. -/
def close (_ : RdbImpl) : RdbImpl := new

/-- `RdbController::setRomIdentity`. -/
def setRomIdentity (identity : RdbRomIdentity) (impl : RdbImpl) : RdbImpl :=
  { impl with romIdentity := identity }

/-- `RdbController::initialize`. -/
def initializeRdb (platform : Text) (rom : RdbRomIdentity) (path : Text) (impl : RdbImpl) :
    RdbImpl :=
  { impl.close with platform, romIdentity := rom, path, loaded := true }

/-- The text after the last slash. -/
def fileName (path : Text) : Text := (path.reverse.takeWhile (· ≠ 0x2f)).reverse

/-- `DebugBackend::loadRdb`, with the size of the program, none when it cannot be opened, and its
digest. -/
def loadRdb (files : RdbFiles) (romPath : Text) (size : Option (BitVec 64)) (sha256 : Text)
    (impl : RdbImpl) : RdbImpl :=
  let identity : RdbRomIdentity :=
    { file := fileName romPath, size := size.getD (-1), sha256 }
  let closed := impl.close.setRomIdentity identity
  let rdbPath := rdbPathFromRom romPath
  if (files rdbPath).isSome then (closed.load files rdbPath).1
  else closed.initializeRdb (ascii "vector06c") identity rdbPath

end RdbImpl

end VectorDebugger

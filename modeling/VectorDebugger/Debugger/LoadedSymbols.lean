import VectorDebugger.Debugger.SymbolCoherence

/-!
# The symbols of a loaded program

The last stages of `DebugBackend::loadRom` work on the two annotation stores: symbols that came
from a MAP file or a database are cleared, the database of the new program is opened, or filled
from its MAP file, and each of its objects is mirrored by a symbol where there is none. Symbols
that a command created carry no mark and stay.
-/

namespace VectorDebugger

/-- `MapSymbolVisibility`. -/
inductive MapSymbolVisibility
  | isPublic | isLocal
deriving DecidableEq, Repr

/-- `MapSymbol`. -/
structure MapSymbol where
  /-- `name`. -/
  name : Text
  /-- `address`. -/
  address : Word
  /-- `visibility`. -/
  visibility : MapSymbolVisibility
  /-- `isAddress`. -/
  isAddress : Bool
  /-- `sourceFile`. -/
  sourceFile : Text
  /-- `sourceLine`. -/
  sourceLine : Int

/-- `MapLoadResult`, without its counters and its message. -/
structure MapLoadResult where
  /-- `success`. -/
  success : Bool
  /-- `symbols`. -/
  symbols : List MapSymbol

/-- The files next to a program, by their paths. -/
structure AnnotationFiles where
  /-- The database that `RdbController::load` reads; none when the file is missing or cannot be
  parsed. -/
  rdb : Text → Option RdbController
  /-- What `MapLoader::loadMapFile` reads. -/
  map : Text → MapLoadResult

/-- The text before the last dot. -/
def beforeDot (path : Text) : Text := (path.reverse.dropWhile (· ≠ 0x2e)).tail.reverse

/-- `DebugBackend::rdbPathFromRom`. -/
def rdbPathFromRom (romPath : Text) : Text :=
  if (romPath.reverse.takeWhile (· ≠ 0x2f)).contains 0x2e then beforeDot romPath ++ ascii ".rdb"
  else romPath ++ ascii ".rdb"

/-- `MapLoader::mapPathFromRom`. -/
def mapPathFromRom (romPath : Text) : Text :=
  if romPath.contains 0x2e then beforeDot romPath ++ ascii ".map" else romPath ++ ascii ".map"

namespace RdbController

/-- `RdbController::listObjects`, in the order of the addresses. -/
def listObjects (rdb : RdbController) : List RdbObject :=
  (List.range 65536).filterMap fun addr => rdb.objects (BitVec.ofNat 16 addr)

/-- `RdbController::objectCount`. -/
def objectCount (rdb : RdbController) : Nat := rdb.listObjects.length

/-- The listed objects are the stored ones. -/
theorem mem_listObjects (rdb : RdbController) (object : RdbObject) :
    object ∈ rdb.listObjects ↔ rdb.objects object.address = some object := by
  unfold listObjects
  rw [List.mem_filterMap]
  constructor
  · rintro ⟨addr, _, found⟩
    have place := rdb.keyed _ object found
    rw [place]
    exact found
  · intro found
    have bound : object.address.toNat < 65536 := by omega
    have listed : object.address.toNat ∈ List.range 65536 := List.mem_range.mpr bound
    have place : rdb.objects (BitVec.ofNat 16 object.address.toNat) = some object := by
      rw [BitVec.ofNat_toNat, BitVec.setWidth_eq]
      exact found
    exact ⟨_, listed, place⟩

/-- The listed object of an address is the stored one. -/
theorem find_listObjects (rdb : RdbController) (addr : Word) :
    rdb.listObjects.find? (·.address == addr) = rdb.objects addr := by
  have members := rdb.mem_listObjects
  generalize rdb.listObjects = objects at members
  cases found : objects.find? (·.address == addr) with
  | some object =>
    have same := List.find?_some found
    have place : object.address = addr := eq_of_beq same
    have stored := (members object).mp (List.mem_of_find?_eq_some found)
    rw [place] at stored
    exact stored.symm
  | none =>
    cases stored : rdb.objects addr with
    | none => rfl
    | some object =>
      have place := rdb.keyed addr object stored
      have listed := (members object).mpr (by rw [place]; exact stored)
      have other := List.find?_eq_none.mp found object listed
      exact absurd (beq_iff_eq.mpr place) other

end RdbController

/-- The object of a symbol of a MAP file, as `importMapToRdb` builds it. -/
def MapSymbol.object (ms : MapSymbol) : RdbObject where
  address := ms.address
  type := if ms.isAddress && ms.visibility == .isPublic then .function else .label
  name := ms.name
  size := 0
  hasSize := false
  comment := []
  properties :=
    (if ms.sourceFile = [] then []
      else [(ascii "source_file",
        { type := .string, stringValue := ms.sourceFile, intValue := 0, boolValue := false
          doubleValue := 0 })]) ++
    (if ms.sourceLine > 0 then
        [(ascii "source_line",
          { type := .integer, stringValue := [], intValue := BitVec.ofInt 64 ms.sourceLine
            boolValue := false, doubleValue := 0 })]
      else [])
  links := []

/-- `MapImport::importMapToRdb`. -/
def importMapToRdb (mapResult : MapLoadResult) (rdb : RdbController) : RdbController :=
  if !mapResult.success then rdb
  else mapResult.symbols.foldl (fun rdb ms => (rdb.addObject ms.object).1) rdb

/-- A property of an object, by its key. -/
def RdbObject.property (object : RdbObject) (key : Text) : Option RdbPropertyValue :=
  (object.properties.find? (·.1 == key)).map (·.2)

namespace SymbolDatabase

/-- `SymbolDatabase::clearMapSymbols`. -/
def clearMapSymbols (db : SymbolDatabase) : SymbolDatabase where
  symbols := fun addr => (db.symbols addr).filter (!·.fromMap)
  keyed := by
    intro addr sym found
    exact db.keyed addr sym (Option.filter_eq_some_iff.mp found).1

/-- The fields that `syncRdbToSymbolDatabase` sets in the symbol it added. -/
def markMirrored (sym : DebugSymbol) (object : RdbObject) : DebugSymbol :=
  { sym with
    fromMap := true
    sourceFile := match object.property (ascii "source_file") with
      | some value => if value.type = .string then value.stringValue else sym.sourceFile
      | none => sym.sourceFile
    sourceLine := match object.property (ascii "source_line") with
      | some value =>
        if value.type = .integer then (value.intValue.setWidth 32).toInt else sym.sourceLine
      | none => sym.sourceLine }

/-- One pass of the loop of `MapImport::syncRdbToSymbolDatabase`. -/
def syncObject (db : SymbolDatabase) (object : RdbObject) : SymbolDatabase :=
  if (db.symbols object.address).isSome then db
  else
    let symType := if object.type = .function then SymbolType.function else SymbolType.label
    let added := db.addSymbol object.address object.name symType
    if added.2 then
      let marked := match added.1.symbols object.address with
        | some sym => added.1.set (markMirrored sym object)
        | none => added.1
      if object.comment = [] then marked else (marked.setComment object.address object.comment).1
    else added.1

/-- `MapImport::syncRdbToSymbolDatabase`. -/
def syncRdb (db : SymbolDatabase) (rdb : RdbController) : SymbolDatabase :=
  rdb.listObjects.foldl syncObject db

/-- The symbol that mirrors an object. -/
def mirror (object : RdbObject) : DebugSymbol :=
  markMirrored
    { address := object.address, name := object.name, comment := object.comment
      type := if object.type = .function then .function else .label
      sourceFile := [], sourceLine := 0, fromMap := true } object

/-- Where there is no symbol, a pass stores the mirror of its object. -/
theorem syncObject_free (db : SymbolDatabase) (object : RdbObject)
    (normal : normalizeRdbText object.comment = object.comment)
    (free : db.symbols object.address = none) :
    (db.syncObject object).symbols =
      Function.update db.symbols object.address (some (mirror object)) := by
  have vacant : ¬ (db.symbols object.address).isSome = true := by
    rw [free]
    exact Bool.false_ne_true
  unfold syncObject addSymbol
  rw [if_neg vacant]
  dsimp only
  rw [if_neg vacant]
  dsimp only [set]
  rw [if_pos rfl, Function.update_self]
  dsimp only
  split
  · rename_i silent
    have text : mirror object = markMirrored
        { address := object.address, name := object.name, comment := []
          type := if object.type = .function then .function else .label
          sourceFile := [], sourceLine := 0, fromMap := false } object := by
      unfold mirror
      rw [silent]
      rfl
    rw [text]
    exact Function.update_idem ..
  · unfold setComment
    dsimp only [set, markMirrored]
    rw [Function.update_self]
    dsimp only
    rw [normal, Function.update_idem, Function.update_idem]
    rfl

/-- A pass puts the mirror of its object where there is no symbol, and leaves the rest. -/
theorem syncObject_symbols (db : SymbolDatabase) (object : RdbObject)
    (normal : normalizeRdbText object.comment = object.comment) (addr : Word) :
    (db.syncObject object).symbols addr =
      (db.symbols addr).or (if object.address = addr then some (mirror object) else none) := by
  cases taken : db.symbols object.address with
  | some sym =>
    have kept : db.syncObject object = db := by
      unfold syncObject
      rw [taken]
      rfl
    rw [kept]
    split
    · rename_i here
      rw [← here, taken]
      rfl
    · rw [Option.or_none]
  | none =>
    rw [db.syncObject_free object normal taken]
    split
    · rename_i here
      rw [← here, Function.update_self, taken]
      rfl
    · rename_i elsewhere
      rw [Function.update_of_ne (Ne.symm elsewhere), Option.or_none]

/-- The loop mirrors the first object of each address that has no symbol. -/
theorem foldl_syncObject (objects : List RdbObject) (addr : Word) :
    ∀ db : SymbolDatabase,
      (∀ object ∈ objects, normalizeRdbText object.comment = object.comment) →
        (objects.foldl syncObject db).symbols addr =
          (db.symbols addr).or ((objects.find? (·.address == addr)).map mirror) := by
  induction objects with
  | nil => exact fun db normal => (Option.or_none).symm
  | cons object objects inductionHypothesis =>
    intro db normal
    have first := normal object List.mem_cons_self
    have rest := inductionHypothesis (db.syncObject object)
      fun other listed => normal other (List.mem_cons_of_mem _ listed)
    rw [List.foldl_cons, rest, db.syncObject_symbols object first, Option.or_assoc,
      List.find?_cons]
    congr 1
    by_cases here : object.address = addr
    · rw [if_pos here, beq_iff_eq.mpr here]
      rfl
    · rw [if_neg here, beq_eq_false_iff_ne.mpr here]
      rfl

/-- After the mirroring, an address has its symbol, or the mirror of its object. -/
theorem syncRdb_symbols (db : SymbolDatabase) (rdb : RdbController) (addr : Word) :
    (db.syncRdb rdb).symbols addr = (db.symbols addr).or ((rdb.objects addr).map mirror) := by
  have synced : db.syncRdb rdb = rdb.listObjects.foldl syncObject db := rfl
  rw [synced, foldl_syncObject rdb.listObjects addr db ?_, rdb.find_listObjects]
  intro object listed
  have stored := (rdb.mem_listObjects object).mp listed
  exact congrArg RdbObject.comment (rdb.normalized object.address object stored)

/-- Where there is a symbol that a command created. -/
def HasUser (db : SymbolDatabase) (addr : Word) : Prop :=
  ∃ sym, db.symbols addr = some sym ∧ sym.fromMap = false

/-- A stored symbol counts at its own address only. -/
theorem hasUser_set (db : SymbolDatabase) (sym : DebugSymbol) (addr : Word) :
    (db.set sym).HasUser addr ↔
      if sym.address = addr then sym.fromMap = false else db.HasUser addr := by
  unfold HasUser set
  dsimp only
  split
  · rename_i here
    rw [← here, Function.update_self]
    constructor
    · rintro ⟨stored, same, user⟩
      rw [Option.some.inj same]
      exact user
    · intro user
      exact ⟨sym, rfl, user⟩
  · rename_i elsewhere
    rw [Function.update_of_ne (Ne.symm elsewhere)]

/-- A symbol changed in place keeps its mark. -/
theorem hasUser_change (db : SymbolDatabase) {place : Word} {sym changed : DebugSymbol}
    (found : db.symbols place = some sym) (address : changed.address = place)
    (mark : changed.fromMap = sym.fromMap) (addr : Word) :
    (db.set changed).HasUser addr ↔ db.HasUser addr := by
  rw [hasUser_set, address, mark]
  split
  · rename_i here
    unfold HasUser
    rw [← here, found]
    constructor
    · intro user
      exact ⟨sym, rfl, user⟩
    · rintro ⟨stored, same, user⟩
      rw [Option.some.inj same]
      exact user
  · exact Iff.rfl

theorem hasUser_renameSymbol (db : SymbolDatabase) (place : Word) (name : Text) (addr : Word) :
    (db.renameSymbol place name).1.HasUser addr ↔ db.HasUser addr := by
  unfold renameSymbol
  split
  · exact Iff.rfl
  · rename_i sym found
    have address : ({ sym with name } : DebugSymbol).address = place := db.keyed place sym found
    exact db.hasUser_change found address rfl addr

theorem hasUser_setComment (db : SymbolDatabase) (place : Word) (comment : Text) (addr : Word) :
    (db.setComment place comment).1.HasUser addr ↔ db.HasUser addr := by
  unfold setComment
  split
  · exact Iff.rfl
  · rename_i sym found
    have address : ({ sym with comment := normalizeRdbText comment } : DebugSymbol).address =
      place := db.keyed place sym found
    exact db.hasUser_change found address rfl addr

theorem hasUser_removeSymbol (db : SymbolDatabase) (place addr : Word)
    (left : (db.removeSymbol place).1.HasUser addr) : db.HasUser addr := by
  obtain ⟨sym, found, user⟩ := left
  unfold removeSymbol at found
  dsimp only at found
  by_cases here : addr = place
  · rw [here, Function.update_self] at found
    cases found
  · rw [Function.update_of_ne here] at found
    exact ⟨sym, found, user⟩

theorem hasUser_addSymbol (db : SymbolDatabase) (place : Word) (name : Text) (type : SymbolType)
    (addr : Word) (left : (db.addSymbol place name type).1.HasUser addr) :
    db.HasUser addr ∨ place = addr := by
  unfold addSymbol at left
  split at left
  · exact .inl left
  · dsimp only at left
    rw [hasUser_set] at left
    split at left
    · rename_i here
      exact .inr here
    · exact .inl left

end SymbolDatabase

namespace DebugBackend

variable {δ : Type}

/-- `DebugBackend::loadRdb`, on the objects. -/
def loadRdb (files : AnnotationFiles) (romPath : Text) : RdbController :=
  match files.rdb (rdbPathFromRom romPath) with
  | some rdb => rdb
  | none => .empty

/-- The database after the load: the one next to the program, or else the MAP file. -/
def loadedRdb (files : AnnotationFiles) (romPath : Text) : RdbController :=
  let rdb := loadRdb files romPath
  if rdb.objectCount = 0 then importMapToRdb (files.map (mapPathFromRom romPath)) rdb else rdb

/-- The last stages of `DebugBackend::loadRom`, on the two stores. -/
def loadAnnotations (backend : DebugBackend δ) (files : AnnotationFiles) (romPath : Text) :
    DebugBackend δ :=
  let rdb := loadedRdb files romPath
  { backend with rdb, symbols := backend.symbols.clearMapSymbols.syncRdb rdb }

/-- The symbol that a session left, when a command created it. -/
def userSymbol (backend : DebugBackend δ) (addr : Word) : Option DebugSymbol :=
  (backend.symbols.symbols addr).filter (!·.fromMap)

/-- A load keeps the symbols that commands created and mirrors the new objects elsewhere. -/
theorem loadAnnotations_symbols (backend : DebugBackend δ) (files : AnnotationFiles)
    (romPath : Text) (addr : Word) :
    (backend.loadAnnotations files romPath).symbols.symbols addr =
      (backend.userSymbol addr).or
        (((loadedRdb files romPath).objects addr).map SymbolDatabase.mirror) := by
  have cleared : backend.symbols.clearMapSymbols.symbols addr = backend.userSymbol addr := rfl
  have loaded : (backend.loadAnnotations files romPath).symbols =
      backend.symbols.clearMapSymbols.syncRdb (loadedRdb files romPath) := by
    unfold loadAnnotations
    dsimp only
  rw [loaded, SymbolDatabase.syncRdb_symbols, cleared]

/-! ### Sessions -/

variable [Chips δ]

/-- The steps of a session that matter to the stores. -/
inductive SessionLabel
  /-- A command. -/
  | command (command : Command)
  /-- An edit of the database. -/
  | editRdb
  /-- A program is loaded. -/
  | loadRom (romPath : Text)

/-- One step of a session. -/
inductive SessionStep (files : AnnotationFiles) :
    DebugBackend δ → SessionLabel → DebugBackend δ → Prop
  /-- `executeCommand`. -/
  | command (backend : DebugBackend δ) (command : Command) :
    SessionStep files backend (.command command) (backend.executeCommand command).1
  /-- Any edit of the objects. -/
  | editRdb (backend : DebugBackend δ) (rdb : RdbController) :
    SessionStep files backend .editRdb { backend with rdb }
  /-- A program is loaded: the machine changes, and the stores as `loadRom` leaves them. -/
  | loadRom (backend after : DebugBackend δ) (romPath : Text)
      (symbols : after.symbols = (backend.loadAnnotations files romPath).symbols)
      (rdb : after.rdb = (backend.loadAnnotations files romPath).rdb) :
    SessionStep files backend (.loadRom romPath) after

/-- The command creates a symbol at the address. -/
def SessionLabel.creates (addr : Word) : SessionLabel → Prop
  | .command (.createFunction address _) | .command (.addLabel address _) => address = addr
  | _ => False

/-- A command leaves a symbol without the mark only where there was one, or creates it. -/
theorem executeCommand_hasUser (backend : DebugBackend δ) (command : Command) {addr : Word}
    (left : (backend.executeCommand command).1.symbols.HasUser addr) :
    backend.symbols.HasUser addr ∨ (SessionLabel.command command).creates addr := by
  by_cases other : command.annotates = false
  · rw [(backend.executeCommand_sameStores command other).1] at left
    exact .inl left
  · cases command with
    | createFunction address name =>
      exact backend.symbols.hasUser_addSymbol address name .function addr left
    | addLabel address name =>
      exact backend.symbols.hasUser_addSymbol address name .label addr left
    | renameSymbol address name =>
      exact .inl ((backend.symbols.hasUser_renameSymbol address name addr).mp left)
    | setComment address comment =>
      exact .inl ((backend.symbols.hasUser_setComment address comment addr).mp left)
    | removeSymbol address =>
      exact .inl (backend.symbols.hasUser_removeSymbol address addr left)
    | _ => exact absurd rfl other

omit [Chips δ] in
/-- After a load, a symbol without the mark is one that the session left there. -/
theorem loadAnnotations_hasUser (backend : DebugBackend δ) (files : AnnotationFiles)
    (romPath : Text) (addr : Word) :
    (backend.loadAnnotations files romPath).symbols.HasUser addr ↔
      backend.symbols.HasUser addr := by
  have mirrored : ∀ (object : Option RdbObject) (sym : DebugSymbol),
      object.map SymbolDatabase.mirror = some sym → sym.fromMap = true := by
    intro object sym same
    obtain ⟨stored, _, made⟩ := Option.map_eq_some_iff.mp same
    rw [← made]
    rfl
  unfold SymbolDatabase.HasUser
  rw [loadAnnotations_symbols]
  cases kept : backend.userSymbol addr with
  | some sym =>
    obtain ⟨stored, user⟩ := Option.filter_eq_some_iff.mp kept
    rw [Option.some_or, stored]
  | none =>
    rw [Option.none_or]
    constructor
    · rintro ⟨sym, same, user⟩
      have mark := mirrored _ sym same
      rw [mark] at user
      cases user
    · rintro ⟨sym, stored, user⟩
      have here : backend.userSymbol addr = some sym :=
        Option.filter_eq_some_iff.mpr ⟨stored, by rw [user]; rfl⟩
      rw [kept] at here
      cases here

/-- A step leaves a symbol without the mark only where there was one, or creates it. -/
theorem SessionStep.hasUser {files : AnnotationFiles} {backend after : DebugBackend δ}
    {label : SessionLabel} (step : SessionStep files backend label after) {addr : Word}
    (left : after.symbols.HasUser addr) : backend.symbols.HasUser addr ∨ label.creates addr := by
  cases step with
  | command command => exact executeCommand_hasUser backend command left
  | editRdb rdb => exact .inl left
  | loadRom after romPath symbols rdb =>
    rw [symbols] at left
    exact .inl ((backend.loadAnnotations_hasUser files romPath addr).mp left)

/-- Every symbol without the mark was created by a command of the session. -/
theorem session_hasUser {files : AnnotationFiles} {start final : DebugBackend δ}
    {labels : List SessionLabel} (run : Transition.Run (SessionStep files) start labels final)
    {addr : Word} (left : final.symbols.HasUser addr) :
    start.symbols.HasUser addr ∨ ∃ label ∈ labels, label.creates addr := by
  induction run with
  | nil state => exact .inl left
  | cons step rest inductionHypothesis =>
    cases inductionHypothesis left with
    | inr later =>
      obtain ⟨label, listed, creates⟩ := later
      exact .inr ⟨label, List.mem_cons_of_mem _ listed, creates⟩
    | inl before =>
      cases step.hasUser before with
      | inl earlier => exact .inl earlier
      | inr creates => exact .inr ⟨_, List.mem_cons_self, creates⟩

/-- After a session that ends with a load, an address has the symbol that a command of the session
created and no load or command took away, as the session left it; or else the symbol that mirrors
the object that the loaded database has there, with its name and comment; or else none. -/
theorem session_loadRom {chips : δ} {boot : List Byte} {romFiles : Text → List Byte}
    {files : AnnotationFiles} {before after : DebugBackend δ} {labels : List SessionLabel}
    {romPath : Text}
    (run : Transition.Run (SessionStep files) (init chips boot romFiles) labels before)
    (load : SessionStep files before (.loadRom romPath) after) (addr : Word) :
    after.rdb = loadedRdb files romPath ∧
      after.symbols.symbols addr =
        (before.userSymbol addr).or ((after.rdb.objects addr).map SymbolDatabase.mirror) ∧
      (∀ object, (SymbolDatabase.mirror object).name = object.name ∧
        (SymbolDatabase.mirror object).comment = object.comment) ∧
      ((before.userSymbol addr).isSome = true → ∃ label ∈ labels, label.creates addr) := by
  cases load with
  | loadRom after romPath symbols rdb =>
    unfold loadAnnotations at rdb
    dsimp only at rdb
    refine ⟨rdb, ?_, fun object => ⟨rfl, rfl⟩, fun some => ?_⟩
    · rw [symbols, rdb, before.loadAnnotations_symbols files romPath addr]
    · obtain ⟨sym, kept⟩ := Option.isSome_iff_exists.mp some
      obtain ⟨stored, user⟩ := Option.filter_eq_some_iff.mp kept
      have left : before.symbols.HasUser addr := ⟨sym, stored, by simpa using user⟩
      cases session_hasUser run left with
      | inl empty =>
        obtain ⟨sym, found, _⟩ := empty
        cases found
      | inr created => exact created

/-- A session that adds a label. -/
def labelled : DebugBackend Unit :=
  ((init () [] fun _ => []).executeCommand (.addLabel 0x0100 (ascii "old"))).1

/-- An unnamed data object at `0200h`. -/
def dataObject : RdbObject := { rdbObject 0x0200 .label [] with type := .data }

/-- Next to every program there is a database with this object, and no MAP file. -/
def dataFiles : AnnotationFiles where
  rdb := fun _ => some (RdbController.empty.addObject dataObject).1
  map := fun _ => { success := false, symbols := [] }

/-- The load of a program after the session. -/
theorem session_loadRom_labelled :
    (labelled.loadAnnotations dataFiles []).symbols.symbols 0x0100 =
      (labelled.userSymbol 0x0100).or
        (((labelled.loadAnnotations dataFiles []).rdb.objects 0x0100).map
          SymbolDatabase.mirror) := by
  have run : Transition.Run (SessionStep dataFiles) (init () [] fun _ => [])
      [.command (.addLabel 0x0100 (ascii "old"))] labelled := .cons (.command _ _) (.nil _)
  have load : SessionStep dataFiles labelled (.loadRom [])
      (labelled.loadAnnotations dataFiles []) := .loadRom _ _ _ rfl rfl
  exact (session_loadRom run load 0x0100).2.1

/-- A database with an object is not filled from the MAP file. -/
theorem loadedRdb_of_object {files : AnnotationFiles} {romPath : Text} {addr : Word}
    {object : RdbObject} (stored : (loadRdb files romPath).objects addr = some object) :
    loadedRdb files romPath = loadRdb files romPath := by
  have place := (loadRdb files romPath).keyed addr object stored
  have listed := ((loadRdb files romPath).mem_listObjects object).mpr (by rw [place]; exact stored)
  have some : (loadRdb files romPath).objectCount ≠ 0 :=
    Nat.ne_of_gt (List.length_pos_of_mem listed)
  unfold loadedRdb
  exact if_neg some

/-- The label is still there although the loaded database has nothing at its address, and the
unnamed data object has a symbol too. -/
theorem label_survives_load :
    ((labelled.loadAnnotations dataFiles []).rdb.objects 0x0100).isNone = true ∧
      ((labelled.loadAnnotations dataFiles []).symbols.symbols 0x0100).map (·.name) =
        some (ascii "old") ∧
      ((labelled.loadAnnotations dataFiles []).rdb.objects 0x0200).map (·.type) = some .data ∧
      ((labelled.loadAnnotations dataFiles []).symbols.symbols 0x0200).map (·.name) = some [] := by
  have stored : (loadRdb dataFiles []).objects 0x0200 = some dataObject.normalizeText := rfl
  have rdb := loadedRdb_of_object stored
  have opened : (labelled.loadAnnotations dataFiles []).rdb = loadRdb dataFiles [] := by
    unfold loadAnnotations
    dsimp only
    exact rdb
  rw [opened, loadAnnotations_symbols, loadAnnotations_symbols, rdb]
  exact ⟨rfl, rfl, rfl, rfl⟩

end DebugBackend

end VectorDebugger

import VectorDebugger.Debugger.RdbText
import Mathlib.Data.List.Sort

/-!
# Symbols and the ROM database

Two stores describe the addresses of a program. `SymbolDatabase` holds the symbols that the
debugger shows; `RdbController` holds the objects that are saved with the ROM. Both are maps
from addresses. An entry is stored under its own address, and every text in the database is
normalized; both facts are kept in the types.
-/

namespace VectorDebugger

/-- What both stores say of each address: a name and a comment. -/
abbrev Notes := Word → Option (Text × Text)

namespace Notes

/-- A new name, without a comment, where there is none. -/
def add (notes : Notes) (addr : Word) (name : Text) : Notes :=
  if (notes addr).isSome then notes else Function.update notes addr (some (name, []))

/-- Another name. -/
def rename (notes : Notes) (addr : Word) (name : Text) : Notes :=
  Function.update notes addr ((notes addr).map fun note => (name, note.2))

/-- Another comment. -/
def comment (notes : Notes) (addr : Word) (text : Text) : Notes :=
  Function.update notes addr ((notes addr).map fun note => (note.1, normalizeRdbText text))

/-- Nothing at an address. -/
def remove (notes : Notes) (addr : Word) : Notes := Function.update notes addr none

@[simp] theorem add_of_isSome {notes : Notes} {addr : Word} (taken : (notes addr).isSome = true)
    (name : Text) : notes.add addr name = notes := if_pos taken

@[simp] theorem rename_of_none {notes : Notes} {addr : Word} (free : notes addr = none)
    (name : Text) : notes.rename addr name = notes := by
  unfold rename
  rw [free, Option.map_none, ← free, Function.update_eq_self]

@[simp] theorem comment_of_none {notes : Notes} {addr : Word} (free : notes addr = none)
    (text : Text) : notes.comment addr text = notes := by
  unfold comment
  rw [free, Option.map_none, ← free, Function.update_eq_self]

/-- Removal changes nothing exactly where there is nothing. -/
theorem remove_eq_iff (notes : Notes) (addr : Word) :
    notes.remove addr = notes ↔ (notes addr).isSome = false := by
  rw [remove, Function.update_eq_self_iff, Option.isSome_eq_false_iff, Option.isNone_iff_eq_none,
    eq_comm]

end Notes

/-- A store whose entry changes at one address changes its notes there. -/
theorem map_update {α : Type} (f : α → Text × Text) (store : Word → Option α) (addr : Word)
    (entry : Option α) :
    (fun other => (Function.update store addr entry other).map f) =
      Function.update (fun other => (store other).map f) addr (entry.map f) := by
  funext other
  by_cases here : other = addr
  · subst here
    rw [Function.update_self, Function.update_self]
  · rw [Function.update_of_ne here, Function.update_of_ne here]

/-- `SymbolType`. -/
inductive SymbolType
  | function | label
deriving DecidableEq, Repr

/-- `DebugSymbol`. -/
structure DebugSymbol where
  /-- `address`. -/
  address : Word
  /-- `name`. -/
  name : Text
  /-- `comment`. -/
  comment : Text
  /-- `type`. -/
  type : SymbolType
  /-- `sourceFile`. -/
  sourceFile : Text
  /-- `sourceLine`. -/
  sourceLine : Int
  /-- `fromMap`. -/
  fromMap : Bool
deriving DecidableEq, Repr

/-- The symbols of `SymbolDatabase`. -/
structure SymbolDatabase where
  /-- `symbols_`. -/
  symbols : Word → Option DebugSymbol
  /-- A symbol is stored under its address. -/
  keyed : ∀ addr sym, symbols addr = some sym → sym.address = addr

namespace SymbolDatabase

/-- No symbols. -/
def empty : SymbolDatabase where
  symbols := fun _ => none
  keyed := by simp

/-- Store a symbol under its address. -/
def set (db : SymbolDatabase) (sym : DebugSymbol) : SymbolDatabase where
  symbols := Function.update db.symbols sym.address (some sym)
  keyed := by
    intro addr stored found
    by_cases here : addr = sym.address
    · subst here
      rw [Function.update_self, Option.some.injEq] at found
      rw [found]
    · rw [Function.update_of_ne here] at found
      exact db.keyed addr stored found

/-- `SymbolDatabase::addSymbol`, with its result. -/
def addSymbol (db : SymbolDatabase) (addr : Word) (name : Text) (type : SymbolType) :
    SymbolDatabase × Bool :=
  if (db.symbols addr).isSome then (db, false)
  else
    (db.set { address := addr, name, comment := [], type, sourceFile := [], sourceLine := 0
              fromMap := false }, true)

/-- `SymbolDatabase::removeSymbol`, with its result. -/
def removeSymbol (db : SymbolDatabase) (addr : Word) : SymbolDatabase × Bool :=
  ({ symbols := Function.update db.symbols addr none
     keyed := by
      intro other stored found
      by_cases here : other = addr
      · rw [here, Function.update_self] at found
        exact absurd found (by simp)
      · rw [Function.update_of_ne here] at found
        exact db.keyed other stored found },
    (db.symbols addr).isSome)

/-- `SymbolDatabase::renameSymbol`, with its result. -/
def renameSymbol (db : SymbolDatabase) (addr : Word) (newName : Text) : SymbolDatabase × Bool :=
  match db.symbols addr with
  | none => (db, false)
  | some sym => (db.set { sym with name := newName }, true)

/-- `SymbolDatabase::setComment`, with its result. -/
def setComment (db : SymbolDatabase) (addr : Word) (comment : Text) : SymbolDatabase × Bool :=
  match db.symbols addr with
  | none => (db, false)
  | some sym => (db.set { sym with comment := normalizeRdbText comment }, true)

/-- What the symbols say of each address. -/
def notes (db : SymbolDatabase) : Notes := fun addr =>
  (db.symbols addr).map fun sym => (sym.name, sym.comment)

theorem notes_isSome (db : SymbolDatabase) (addr : Word) :
    (db.notes addr).isSome = (db.symbols addr).isSome := Option.isSome_map ..

theorem notes_set (db : SymbolDatabase) (sym : DebugSymbol) :
    (db.set sym).notes = Function.update db.notes sym.address (some (sym.name, sym.comment)) :=
  map_update _ _ _ _

theorem addSymbol_spec (db : SymbolDatabase) (addr : Word) (name : Text) (type : SymbolType) :
    (db.addSymbol addr name type).1.notes = db.notes.add addr name ∧
      (db.addSymbol addr name type).2 = !(db.notes addr).isSome := by
  unfold addSymbol Notes.add
  rw [notes_isSome]
  split
  · rename_i taken
    exact ⟨rfl, by rw [taken]; rfl⟩
  · rename_i free
    refine ⟨notes_set _ _, ?_⟩
    rw [Bool.eq_false_iff.mpr free]
    rfl

theorem removeSymbol_spec (db : SymbolDatabase) (addr : Word) :
    (db.removeSymbol addr).1.notes = db.notes.remove addr ∧
      (db.removeSymbol addr).2 = (db.notes addr).isSome :=
  ⟨map_update _ _ _ _, (db.notes_isSome addr).symm⟩

theorem renameSymbol_spec (db : SymbolDatabase) (addr : Word) (newName : Text) :
    (db.renameSymbol addr newName).1.notes = db.notes.rename addr newName ∧
      (db.renameSymbol addr newName).2 = (db.notes addr).isSome := by
  rw [notes_isSome]
  unfold renameSymbol
  split
  · rename_i free
    rw [free]
    exact ⟨(Notes.rename_of_none (by rw [notes, free]; rfl) _).symm, rfl⟩
  · rename_i sym found
    rw [found]
    refine ⟨?_, rfl⟩
    rw [notes_set, db.keyed addr sym found, Notes.rename, notes, found]
    rfl

theorem setComment_spec (db : SymbolDatabase) (addr : Word) (comment : Text) :
    (db.setComment addr comment).1.notes = db.notes.comment addr comment ∧
      (db.setComment addr comment).2 = (db.notes addr).isSome := by
  rw [notes_isSome]
  unfold setComment
  split
  · rename_i free
    rw [free]
    exact ⟨(Notes.comment_of_none (by rw [notes, free]; rfl) _).symm, rfl⟩
  · rename_i sym found
    rw [found]
    refine ⟨?_, rfl⟩
    rw [notes_set, db.keyed addr sym found, Notes.comment, notes, found]
    rfl

end SymbolDatabase

/-- `RdbObjectType`. -/
inductive RdbObjectType
  | function | variable | data | table | string | code | label | unknown
deriving DecidableEq, Repr

/-- `RdbPropertyValue::Type`. -/
inductive RdbPropertyType
  | string | integer | boolean | double
deriving DecidableEq, Repr

/-- `RdbPropertyValue`. -/
structure RdbPropertyValue where
  /-- `type`. -/
  type : RdbPropertyType
  /-- `stringValue`. -/
  stringValue : Text
  /-- `intValue`. -/
  intValue : BitVec 64
  /-- `boolValue`. -/
  boolValue : Bool
  /-- `doubleValue`. -/
  doubleValue : Float

/-- `RdbPropertyValue::operator==`. -/
def RdbPropertyValue.same (value other : RdbPropertyValue) : Bool :=
  value.type == other.type &&
    match value.type with
    | .string => value.stringValue == other.stringValue
    | .integer => value.intValue == other.intValue
    | .boolean => value.boolValue == other.boolValue
    | .double => value.doubleValue == other.doubleValue

/-- `RdbObject`. -/
structure RdbObject where
  /-- `address`. -/
  address : Word
  /-- `type`. -/
  type : RdbObjectType
  /-- `name`. -/
  name : Text
  /-- `size` — zero when unknown. -/
  size : BitVec 32
  /-- `hasSize`. -/
  hasSize : Bool
  /-- `comment`. -/
  comment : Text
  /-- `properties` — ordered by key. -/
  properties : List (Text × RdbPropertyValue)
  /-- `links`. -/
  links : List Word

namespace RdbObject

/-- `RdbObject::operator==`. The order of links does not matter. -/
def same (object other : RdbObject) : Bool :=
  object.address == other.address && object.type == other.type && object.name == other.name &&
    object.size == other.size && object.hasSize == other.hasSize &&
    object.comment == other.comment &&
    object.properties.length == other.properties.length &&
    (object.properties.zip other.properties).all
      (fun pair => pair.1.1 == pair.2.1 && pair.1.2.same pair.2.2) &&
    object.links.length == other.links.length &&
    object.links.insertionSort (fun a b => a.toNat ≤ b.toNat) ==
      other.links.insertionSort (fun a b => a.toNat ≤ b.toNat)

/-- `normalizeObjectText`. -/
def normalizeText (object : RdbObject) : RdbObject :=
  { object with
    comment := normalizeRdbText object.comment
    properties := object.properties.map fun property =>
      if property.2.type = .string then
        (property.1,
          { property.2 with stringValue := normalizeRdbText property.2.stringValue })
      else property }

/-- Objects that compare equal have the same name and comment. -/
theorem same_text {object other : RdbObject} (equal : object.same other = true) :
    object.address = other.address ∧ object.name = other.name ∧
      object.comment = other.comment := by
  simp only [same, Bool.and_eq_true, beq_iff_eq] at equal
  exact ⟨equal.1.1.1.1.1.1.1.1.1, equal.1.1.1.1.1.1.1.2, equal.1.1.1.1.2⟩

@[simp] theorem normalizeText_normalizeText (object : RdbObject) :
    object.normalizeText.normalizeText = object.normalizeText := by
  unfold normalizeText
  simp only [RdbText.normalizeRdbText_idempotent, List.map_map]
  congr 1
  apply List.map_congr_left
  intro property _
  by_cases text : property.2.type = .string
  · simp [text]
  · simp [text]

/-- A normalized comment put into a normalized object keeps it so. -/
theorem normalizeText_comment {object : RdbObject} (normal : object.normalizeText = object)
    (comment : Text) :
    { object with comment := normalizeRdbText comment }.normalizeText =
      { object with comment := normalizeRdbText comment } := by
  have properties := congrArg RdbObject.properties normal
  unfold normalizeText at properties ⊢
  simp only [RdbText.normalizeRdbText_idempotent] at properties ⊢
  rw [properties]

end RdbObject

/-- The objects of `RdbController`. -/
structure RdbController where
  /-- `objects`. -/
  objects : Word → Option RdbObject
  /-- `dirty`. -/
  dirty : Bool
  /-- An object is stored under its address. -/
  keyed : ∀ addr object, objects addr = some object → object.address = addr
  /-- Stored text is normalized. -/
  normalized : ∀ addr object, objects addr = some object → object.normalizeText = object

namespace RdbController

/-- No objects. -/
def empty : RdbController where
  objects := fun _ => none
  dirty := false
  keyed := by simp
  normalized := by simp

/-- Store a normalized object under its address. -/
def store (rdb : RdbController) (object : RdbObject) (normal : object.normalizeText = object) :
    RdbController where
  objects := Function.update rdb.objects object.address (some object)
  dirty := true
  keyed := by
    intro addr stored found
    by_cases here : addr = object.address
    · rw [here, Function.update_self, Option.some.injEq] at found
      rw [← found, here]
    · rw [Function.update_of_ne here] at found
      exact rdb.keyed addr stored found
  normalized := by
    intro addr stored found
    by_cases here : addr = object.address
    · rw [here, Function.update_self, Option.some.injEq] at found
      rw [← found]
      exact normal
    · rw [Function.update_of_ne here] at found
      exact rdb.normalized addr stored found

/-- `RdbController::getObject`. -/
def getObject (rdb : RdbController) (address : Word) : Option RdbObject := rdb.objects address

/-- `RdbController::addObject`, with its result. -/
def addObject (rdb : RdbController) (object : RdbObject) : RdbController × Bool :=
  if (rdb.objects object.address).isSome then (rdb, false)
  else (rdb.store object.normalizeText object.normalizeText_normalizeText, true)

/-- `RdbController::updateObject`, with its result. -/
def updateObject (rdb : RdbController) (object : RdbObject) : RdbController × Bool :=
  match rdb.objects object.address with
  | none => (rdb, false)
  | some existing =>
    if existing.same object.normalizeText then (rdb, true)
    else (rdb.store object.normalizeText object.normalizeText_normalizeText, true)

/-- `RdbController::setComment`, with its result. -/
def setComment (rdb : RdbController) (address : Word) (comment : Text) : RdbController × Bool :=
  match found : rdb.objects address with
  | none => (rdb, false)
  | some object =>
    if object.comment = normalizeRdbText comment then (rdb, true)
    else
      (rdb.store { object with comment := normalizeRdbText comment }
        (RdbObject.normalizeText_comment (rdb.normalized address object found) comment), true)

/-- What the objects say of each address. -/
def notes (rdb : RdbController) : Notes := fun addr =>
  (rdb.objects addr).map fun object => (object.name, object.comment)

theorem notes_isSome (rdb : RdbController) (addr : Word) :
    (rdb.notes addr).isSome = (rdb.objects addr).isSome := Option.isSome_map ..

theorem notes_store (rdb : RdbController) (object : RdbObject)
    (normal : object.normalizeText = object) :
    (rdb.store object normal).notes =
      Function.update rdb.notes object.address (some (object.name, object.comment)) :=
  map_update _ _ _ _

theorem notes_of_objects (rdb : RdbController) {addr : Word} {object : RdbObject}
    (found : rdb.objects addr = some object) :
    rdb.notes addr = some (object.name, object.comment) := by
  rw [notes, found]
  rfl

/-- An object without a comment is added under its name. -/
theorem addObject_notes (rdb : RdbController) (object : RdbObject) (silent : object.comment = []) :
    (rdb.addObject object).1.notes = rdb.notes.add object.address object.name := by
  unfold addObject Notes.add
  rw [notes_isSome]
  split
  · rfl
  · have text : object.normalizeText.comment = [] := by
      unfold RdbObject.normalizeText
      rw [silent]
      rfl
    rw [notes_store, text]
    rfl

/-- An object that changes only its name keeps its comment, which is normalized already. -/
theorem updateObject_notes (rdb : RdbController) {addr : Word} {object : RdbObject}
    (found : rdb.objects addr = some object) (name : Text) :
    (rdb.updateObject { object with name }).1.notes = rdb.notes.rename addr name := by
  have place := rdb.keyed addr object found
  have text : normalizeRdbText object.comment = object.comment :=
    congrArg RdbObject.comment (rdb.normalized addr object found)
  have renamed : rdb.notes.rename addr name =
      Function.update rdb.notes addr (some (name, object.comment)) := by
    rw [Notes.rename, rdb.notes_of_objects found]
    rfl
  unfold updateObject
  simp only [place, found]
  split
  · rename_i equal
    obtain ⟨_, sameName, _⟩ := RdbObject.same_text equal
    have kept : object.name = name := sameName
    rw [renamed, ← kept, ← rdb.notes_of_objects found, Function.update_eq_self]
  · rw [notes_store, renamed]
    change Function.update rdb.notes addr (some (name, normalizeRdbText object.comment)) = _
    rw [text]

theorem setComment_notes (rdb : RdbController) (addr : Word) (comment : Text) :
    (rdb.setComment addr comment).1.notes = rdb.notes.comment addr comment := by
  unfold setComment
  split
  · rename_i free
    rw [Notes.comment_of_none]
    rw [notes, free]
    rfl
  · rename_i object found
    have noted : rdb.notes.comment addr comment =
        Function.update rdb.notes addr (some (object.name, normalizeRdbText comment)) := by
      rw [Notes.comment, rdb.notes_of_objects found]
      rfl
    split
    · rename_i same
      rw [noted, ← same, ← rdb.notes_of_objects found, Function.update_eq_self]
    · rw [notes_store, noted, rdb.keyed addr object found]

end RdbController

end VectorDebugger

import Mathlib.Data.List.Destutter
import Mathlib.Data.List.Lex
import VectorDebugger.Debugger.Annotations
import VectorDebugger.Library.SortedMap

/-!
# The mutators of the ROM database

The operations of `RdbController` that change objects. Each decides for itself whether there is
anything to change, and marks the database dirty when it has changed something. The properties of
an object are a `std::map`, a list in the order of its keys here.
-/

namespace VectorDebugger

/-- The order of `std::string`: the first byte that differs decides, as an unsigned number. -/
abbrev TextBefore : Text → Text → Prop := List.Lex (· < ·)

instance byteOrder : IsStrictTotalOrder Byte (· < ·) where
  trichotomous one other notBelow notAbove := BitVec.le_antisymm
    (BitVec.not_lt.mp notAbove) (BitVec.not_lt.mp notBelow)
  irrefl _ := BitVec.lt_irrefl _
  trans _ _ _ := BitVec.lt_trans

instance textOrder : IsStrictTotalOrder Text TextBefore where
  trichotomous := (List.Lex.trichotomous _).trichotomous
  irrefl text before := (List.Lex.asymm _).asymm text text before before
  trans _ _ _ := List.lex_trans fun {_ _ _} => BitVec.lt_trans

/-- The normalization of a property value: only texts change. -/
def RdbPropertyValue.normalize (value : RdbPropertyValue) : RdbPropertyValue :=
  if value.type = .string then
    { value with stringValue := normalizeRdbText value.stringValue }
  else value

@[simp] theorem RdbPropertyValue.normalize_normalize (value : RdbPropertyValue) :
    value.normalize.normalize = value.normalize := by
  unfold RdbPropertyValue.normalize
  by_cases text : value.type = .string
  · simp [text]
  · simp [text]

namespace RdbObject

theorem map_eq_self_iff {α : Type} (f : α → α) (list : List α) :
    list.map f = list ↔ ∀ entry ∈ list, f entry = entry := by
  induction list with
  | nil => simp
  | cons first rest inductionHypothesis => simp [inductionHypothesis]

/-- An object is normalized when its comment and its texts are. -/
theorem normalizeText_eq_iff (object : RdbObject) :
    object.normalizeText = object ↔ normalizeRdbText object.comment = object.comment ∧
      ∀ property ∈ object.properties, property.2.normalize = property.2 := by
  have mapped : ∀ property : Text × RdbPropertyValue,
      (if property.2.type = .string then
        (property.1,
          { property.2 with stringValue := normalizeRdbText property.2.stringValue })
      else property) = property ↔ property.2.normalize = property.2 := by
    rintro ⟨key, value⟩
    unfold RdbPropertyValue.normalize
    by_cases text : value.type = .string
    · simp only [text, if_true, Prod.mk.injEq, true_and]
    · simp only [text, if_false]
  constructor
  · intro normal
    have comment := congrArg RdbObject.comment normal
    have properties := congrArg RdbObject.properties normal
    exact ⟨comment, fun property listed =>
      (mapped property).mp ((map_eq_self_iff _ _).mp properties property listed)⟩
  · rintro ⟨comment, properties⟩
    unfold normalizeText
    rw [comment, (map_eq_self_iff _ _).mpr fun property listed =>
      (mapped property).mpr (properties property listed)]

/-- The properties are a map: in the order of their keys, and each key once. -/
def PropertiesSorted (object : RdbObject) : Prop :=
  SortedMap.Sorted TextBefore object.properties

theorem normalizeText_keys (object : RdbObject) :
    object.normalizeText.properties.map (·.1) = object.properties.map (·.1) := by
  unfold normalizeText
  rw [List.map_map]
  refine List.map_congr_left fun property _ => ?_
  dsimp only [Function.comp]
  split <;> rfl

/-- Normalization leaves the keys alone. -/
theorem PropertiesSorted.normalizeText {object : RdbObject} (sorted : object.PropertiesSorted) :
    object.normalizeText.PropertiesSorted := by
  have keys : (object.normalizeText.properties.map (·.1)).Pairwise TextBefore := by
    rw [normalizeText_keys]
    exact List.pairwise_map.mpr sorted
  exact List.pairwise_map.mp keys

end RdbObject

namespace RdbController

/-- Erase the object at an address. -/
def erase (rdb : RdbController) (address : Word) : RdbController where
  objects := Function.update rdb.objects address none
  dirty := true
  keyed := by
    intro addr stored found
    by_cases here : addr = address
    · rw [here, Function.update_self] at found
      exact nomatch found
    · rw [Function.update_of_ne here] at found
      exact rdb.keyed addr stored found
  normalized := by
    intro addr stored found
    by_cases here : addr = address
    · rw [here, Function.update_self] at found
      exact nomatch found
    · rw [Function.update_of_ne here] at found
      exact rdb.normalized addr stored found

/-- `RdbController::removeObject`, with its result. -/
def removeObject (rdb : RdbController) (address : Word) : RdbController × Bool :=
  if (rdb.objects address).isSome then (rdb.erase address, true) else (rdb, false)

/-- The value of a property. -/
def propertyOf (object : RdbObject) (name : Text) : Option RdbPropertyValue :=
  (object.properties.find? (·.1 = name)).map (·.2)

/-- A stored object with other links is still normalized. -/
theorem normal_links {object : RdbObject} (normal : object.normalizeText = object)
    (links : List Word) :
    ({ object with links } : RdbObject).normalizeText = { object with links } := by
  rw [RdbObject.normalizeText_eq_iff] at normal ⊢
  exact normal

/-- A stored object is still normalized when a normalized property is entered. -/
theorem normal_insert {object : RdbObject} (normal : object.normalizeText = object) (name : Text)
    (value : RdbPropertyValue) :
    ({ object with
      properties := SortedMap.insert TextBefore name value.normalize object.properties } :
        RdbObject).normalizeText =
      { object with
        properties := SortedMap.insert TextBefore name value.normalize object.properties } := by
  rw [RdbObject.normalizeText_eq_iff] at normal ⊢
  refine ⟨normal.1, fun property listed => ?_⟩
  rcases SortedMap.mem_insert listed with new | old
  · rw [new]
    exact value.normalize_normalize
  · exact normal.2 property old

/-- A stored object is still normalized when properties are removed. -/
theorem normal_filter {object : RdbObject} (normal : object.normalizeText = object)
    (keep : Text × RdbPropertyValue → Bool) :
    ({ object with properties := object.properties.filter keep } : RdbObject).normalizeText =
      { object with properties := object.properties.filter keep } := by
  rw [RdbObject.normalizeText_eq_iff] at normal ⊢
  exact ⟨normal.1, fun property listed => normal.2 property (List.mem_of_mem_filter listed)⟩

/-- `RdbController::setProperty`, with its result. -/
def setProperty (rdb : RdbController) (address : Word) (name : Text) (value : RdbPropertyValue) :
    RdbController × Bool :=
  match found : rdb.objects address with
  | none => (rdb, false)
  | some object =>
    if (propertyOf object name).any (·.same value.normalize) then (rdb, true)
    else
      (rdb.store _ (normal_insert (rdb.normalized address object found) name value), true)

/-- `RdbController::removeProperty`, with its result. -/
def removeProperty (rdb : RdbController) (address : Word) (name : Text) : RdbController × Bool :=
  match found : rdb.objects address with
  | none => (rdb, false)
  | some object =>
    if (propertyOf object name).isSome then
      (rdb.store _ (normal_filter (rdb.normalized address object found) (·.1 ≠ name)), true)
    else (rdb, false)

/-- `RdbController::addLink`, with its result. -/
def addLink (rdb : RdbController) (address targetAddress : Word) : RdbController × Bool :=
  match found : rdb.objects address with
  | none => (rdb, false)
  | some object =>
    if targetAddress ∈ object.links then (rdb, true)
    else
      (rdb.store _ (normal_links (rdb.normalized address object found)
        (object.links ++ [targetAddress])), true)

/-- `RdbController::removeLink`, with its result. -/
def removeLink (rdb : RdbController) (address targetAddress : Word) : RdbController × Bool :=
  match found : rdb.objects address with
  | none => (rdb, false)
  | some object =>
    if targetAddress ∈ object.links then
      (rdb.store _ (normal_links (rdb.normalized address object found)
        (object.links.erase targetAddress)), true)
    else (rdb, false)

/-- `std::sort` of addresses. -/
def sortWords (words : List Word) : List Word := words.insertionSort fun a b => a.toNat ≤ b.toNat

/-- `RdbController::setLinks`, with its result. -/
def setLinks (rdb : RdbController) (address : Word) (links : List Word) : RdbController × Bool :=
  match found : rdb.objects address with
  | none => (rdb, false)
  | some object =>
    let deduped := (sortWords links).destutter (· ≠ ·)
    if sortWords object.links = deduped then (rdb, true)
    else (rdb.store _ (normal_links (rdb.normalized address object found) deduped), true)

end RdbController

/-- A call of a mutator of `RdbController`. -/
inductive RdbMutation
  | addObject (object : RdbObject)
  | updateObject (object : RdbObject)
  | removeObject (address : Word)
  | setComment (address : Word) (comment : Text)
  | setProperty (address : Word) (name : Text) (value : RdbPropertyValue)
  | removeProperty (address : Word) (name : Text)
  | addLink (address targetAddress : Word)
  | removeLink (address targetAddress : Word)
  | setLinks (address : Word) (links : List Word)

namespace RdbMutation

/-- The call on a database, with its result. -/
def apply (rdb : RdbController) : RdbMutation → RdbController × Bool
  | addObject object => rdb.addObject object
  | updateObject object => rdb.updateObject object
  | removeObject address => rdb.removeObject address
  | setComment address comment => rdb.setComment address comment
  | setProperty address name value => rdb.setProperty address name value
  | removeProperty address name => rdb.removeProperty address name
  | addLink address targetAddress => rdb.addLink address targetAddress
  | removeLink address targetAddress => rdb.removeLink address targetAddress
  | setLinks address links => rdb.setLinks address links

/-- The objects that a call brings in hold maps. -/
def Sorted : RdbMutation → Prop
  | addObject object => object.PropertiesSorted
  | updateObject object => object.PropertiesSorted
  | _ => True

end RdbMutation

namespace RdbController

/-- What a mutator does: nothing, or it stores or erases one object and marks the database dirty.
Only the objects that come from outside bring properties that were not there. -/
inductive Mutated (rdb : RdbController) (sorted : Prop) : RdbController → Prop
  | same : Mutated rdb sorted rdb
  | stored (object : RdbObject) (normal : object.normalizeText = object)
    (properties : sorted →
      (∀ addr known, rdb.objects addr = some known → known.PropertiesSorted) →
        object.PropertiesSorted) : Mutated rdb sorted (rdb.store object normal)
  | erased (address : Word) : Mutated rdb sorted (rdb.erase address)

/-- Each of the nine mutators does one of these. -/
theorem mutated_apply (rdb : RdbController) (mutation : RdbMutation) :
    rdb.Mutated mutation.Sorted (mutation.apply rdb).1 := by
  cases mutation with
  | addObject object =>
    unfold RdbMutation.apply addObject
    dsimp only
    split
    · exact .same
    · exact .stored _ object.normalizeText_normalizeText fun sorted _ =>
        RdbObject.PropertiesSorted.normalizeText sorted
  | updateObject object =>
    unfold RdbMutation.apply updateObject
    dsimp only
    split
    · exact .same
    · split
      · exact .same
      · exact .stored _ object.normalizeText_normalizeText fun sorted _ =>
          RdbObject.PropertiesSorted.normalizeText sorted
  | removeObject address =>
    unfold RdbMutation.apply removeObject
    dsimp only
    split
    · exact .erased address
    · exact .same
  | setComment address comment =>
    unfold RdbMutation.apply setComment
    dsimp only
    split
    · exact .same
    · rename_i object found
      split
      · exact .same
      · exact .stored _
          (RdbObject.normalizeText_comment (rdb.normalized address object found) comment)
          fun _ known => known address object found
  | setProperty address name value =>
    unfold RdbMutation.apply setProperty
    dsimp only
    split
    · exact .same
    · rename_i object found
      split
      · exact .same
      · exact .stored _ (normal_insert (rdb.normalized address object found) name value)
          fun _ known =>
          SortedMap.Sorted.insert (known address object found) name value.normalize
  | removeProperty address name =>
    unfold RdbMutation.apply removeProperty
    dsimp only
    split
    · exact .same
    · rename_i object found
      split
      · exact .stored _ (normal_filter (rdb.normalized address object found) _)
          fun _ known => SortedMap.Sorted.filter (known address object found) _
      · exact .same
  | addLink address targetAddress =>
    unfold RdbMutation.apply addLink
    dsimp only
    split
    · exact .same
    · rename_i object found
      split
      · exact .same
      · exact .stored _ (normal_links (rdb.normalized address object found) _)
          fun _ known => known address object found
  | removeLink address targetAddress =>
    unfold RdbMutation.apply removeLink
    dsimp only
    split
    · exact .same
    · rename_i object found
      split
      · exact .stored _ (normal_links (rdb.normalized address object found) _)
          fun _ known => known address object found
      · exact .same
  | setLinks address links =>
    unfold RdbMutation.apply setLinks
    dsimp only
    split
    · exact .same
    · rename_i object found
      split
      · exact .same
      · exact .stored _ (normal_links (rdb.normalized address object found) _)
          fun _ known => known address object found

/-- A mutator that leaves the database clean has changed nothing. -/
theorem Mutated.eq_of_clean {rdb after : RdbController} {sorted : Prop}
    (mutated : rdb.Mutated sorted after) (clean : after.dirty = false) : after = rdb := by
  cases mutated with
  | same => rfl
  | stored object normal => exact nomatch clean
  | erased address => exact nomatch clean

/-- The properties of all objects are maps. -/
def PropertiesSorted (rdb : RdbController) : Prop :=
  ∀ addr object, rdb.objects addr = some object → object.PropertiesSorted

/-- A mutator keeps the properties of all objects maps. -/
theorem Mutated.propertiesSorted {rdb after : RdbController} {sorted : Prop}
    (mutated : rdb.Mutated sorted after) (given : sorted) (known : rdb.PropertiesSorted) :
    after.PropertiesSorted := by
  cases mutated with
  | same => exact known
  | stored object normal properties =>
    intro addr stored found
    by_cases here : addr = object.address
    · have now : (rdb.store object normal).objects addr = some object := by
        rw [here]
        exact Function.update_self ..
      rw [now] at found
      rw [← Option.some.inj found]
      exact properties given known
    · have before : (rdb.store object normal).objects addr = rdb.objects addr :=
        Function.update_of_ne here ..
      rw [before] at found
      exact known addr stored found
  | erased address =>
    intro addr stored found
    by_cases here : addr = address
    · have now : (rdb.erase address).objects addr = none := by
        rw [here]
        exact Function.update_self ..
      rw [now] at found
      exact nomatch found
    · have before : (rdb.erase address).objects addr = rdb.objects addr :=
        Function.update_of_ne here ..
      rw [before] at found
      exact known addr stored found

end RdbController

end VectorDebugger

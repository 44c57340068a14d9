import VectorDebugger.Debugger.RdbFile
import VectorDebugger.Library.Transition

/-!
# Nothing lost between memory and disk

A clean database has the objects of its last load or save. A load that fails is meant to leave the
database alone, and a save that succeeds is meant to have written it; both promises have states in
which they break.
-/

namespace VectorDebugger

open Transition (Run)

namespace RdbImpl

/-- The call of a mutator. -/
def edit (mutation : RdbMutation) (impl : RdbImpl) : RdbImpl :=
  { impl with rdb := (mutation.apply impl.rdb).1 }

/-- A mutator that leaves the database clean has changed no object. -/
theorem edit_objects {impl : RdbImpl} {mutation : RdbMutation}
    (clean : (impl.edit mutation).rdb.dirty = false) : (impl.edit mutation).rdb = impl.rdb :=
  (RdbController.mutated_apply impl.rdb mutation).eq_of_clean clean

end RdbImpl

section Clean

/-- A controller, with the objects of its last successful load, save or initialization. -/
structure RdbTracked where
  /-- The controller. -/
  impl : RdbImpl
  /-- The objects to compare with. -/
  reference : Word → Option RdbObject

/-- A call of the controller. The files may be any at each call. -/
inductive RdbCall
  | mutate (mutation : RdbMutation)
  | load (files : RdbFiles) (path : Text)
  | save (files : RdbFiles) (outcome : WriteOutcome)
  | saveAs (files : RdbFiles) (path : Text) (outcome : WriteOutcome)
  | initializeRdb (platform : Text) (rom : RdbRomIdentity) (path : Text)

namespace RdbTracked

/-- A new controller, without objects. -/
def new : RdbTracked := { impl := RdbImpl.new, reference := RdbImpl.new.rdb.objects }

/-- The controller after a call that takes its objects for reference. -/
def anew (impl : RdbImpl) : RdbTracked := { impl, reference := impl.rdb.objects }

/-- A mutator, or a call that succeeds. -/
inductive Step : RdbTracked → RdbCall → RdbTracked → Prop
  | mutate (tracked : RdbTracked) (mutation : RdbMutation) :
    Step tracked (.mutate mutation) { tracked with impl := tracked.impl.edit mutation }
  | load (tracked : RdbTracked) (files : RdbFiles) (path : Text)
    (succeeds : (tracked.impl.load files path).2 = true) :
    Step tracked (.load files path) (anew (tracked.impl.load files path).1)
  | save (tracked : RdbTracked) (files : RdbFiles) (outcome : WriteOutcome)
    (succeeds : (tracked.impl.save files outcome).2.2 = true) :
    Step tracked (.save files outcome) (anew (tracked.impl.save files outcome).2.1)
  | saveAs (tracked : RdbTracked) (files : RdbFiles) (path : Text) (outcome : WriteOutcome)
    (succeeds : (tracked.impl.saveAs files path outcome).2.2 = true) :
    Step tracked (.saveAs files path outcome) (anew (tracked.impl.saveAs files path outcome).2.1)
  | initializeRdb (tracked : RdbTracked) (platform : Text) (rom : RdbRomIdentity) (path : Text) :
    Step tracked (.initializeRdb platform rom path)
      (anew (tracked.impl.initializeRdb platform rom path))

/-- When the controller is clean, its objects are those of the reference. -/
def Current (tracked : RdbTracked) : Prop :=
  tracked.impl.rdb.dirty = false → tracked.impl.rdb.objects = tracked.reference

theorem Step.current {tracked after : RdbTracked} {call : RdbCall}
    (step : Step tracked call after) (current : tracked.Current) : after.Current := by
  cases step with
  | mutate mutation =>
    intro clean
    have same := RdbImpl.edit_objects clean
    have before : tracked.impl.rdb.dirty = false := by
      rw [← same]
      exact clean
    calc (tracked.impl.edit mutation).rdb.objects
        = tracked.impl.rdb.objects := congrArg RdbController.objects same
      _ = tracked.reference := current before
  | load files path succeeds => exact fun _ => rfl
  | save files outcome succeeds => exact fun _ => rfl
  | saveAs files path outcome succeeds => exact fun _ => rfl
  | initializeRdb platform rom path => exact fun _ => rfl

/-- A clean database has nothing to save: after any calls its objects are those of the last
successful load, save or initialization. -/
theorem clean_unchanged {calls : List RdbCall} {tracked : RdbTracked}
    (run : Run Step new calls tracked) (clean : tracked.impl.rdb.dirty = false) :
    tracked.impl.rdb.objects = tracked.reference :=
  run.invariant (fun _ _ _ current step => step.current current) (fun _ => rfl) clean

end RdbTracked

/-- A label at an address. -/
def labelAt (address : Word) : RdbObject where
  address
  type := .label
  name := ascii "start"
  size := 0
  hasSize := false
  comment := []
  properties := []
  links := []

/-- An object is added, saved, and added again. -/
theorem RdbTracked.clean_unchanged_saved :
    let added := RdbImpl.new.edit (.addObject (labelAt 0))
    let saved := (added.saveAs (fun _ => none) (ascii "a.rdb") .written).2.1
    (saved.edit (.addObject (labelAt 0))).rdb.objects = saved.rdb.objects := by
  intro added saved
  have run : Run Step new _ _ :=
    .cons (.mutate new (.addObject (labelAt 0)))
      (.cons (.saveAs _ (fun _ => none) (ascii "a.rdb") .written rfl)
        (.cons (.mutate _ (.addObject (labelAt 0))) (.nil _)))
  exact clean_unchanged run (by decide)

end Clean

namespace RdbImpl

/-- The same objects, platform, version, ROM identity, path and dirty flag. -/
structure SameData (impl other : RdbImpl) : Prop where
  /-- The objects. -/
  objects : impl.rdb.objects = other.rdb.objects
  /-- `platform`. -/
  platform : impl.platform = other.platform
  /-- `version`. -/
  version : impl.version = other.version
  /-- `romIdentity`. -/
  romIdentity : impl.romIdentity = other.romIdentity
  /-- `path`. -/
  path : impl.path = other.path
  /-- `dirty`. -/
  dirty : impl.rdb.dirty = other.rdb.dirty

/-- The file can be loaded: it parses, and has the format tag. -/
def Loadable (files : RdbFiles) (path : Text) : Prop :=
  ∃ root, files path = some (.json root) ∧ hasFormat root = true

/-- What loading a file does. -/
theorem load_spec (files : RdbFiles) (path : Text) (impl : RdbImpl) :
    ((impl.load files path).2 = true ∧ Loadable files path) ∨
      ((impl.load files path).2 = false ∧ ¬Loadable files path ∧
        (impl.load files path).1 =
          if files path = none then impl else { impl with rdb := impl.rdb.clear }) := by
  unfold load
  cases found : files path with
  | none =>
    refine Or.inr ⟨rfl, ?_, (if_pos rfl).symm⟩
    rintro ⟨root, here, tagged⟩
    exact absurd (found.symm.trans here) nofun
  | some file =>
    cases file with
    | malformed =>
      refine Or.inr ⟨rfl, ?_, (if_neg nofun).symm⟩
      rintro ⟨root, here, tagged⟩
      exact absurd (found.symm.trans here) nofun
    | json root =>
      dsimp only
      unfold rdbFromJson
      by_cases tagged : hasFormat root = true
      · rw [if_pos tagged, if_pos rfl]
        exact Or.inl ⟨rfl, root, found, tagged⟩
      · rw [if_neg tagged, if_neg nofun]
        refine Or.inr ⟨rfl, ?_, (if_neg nofun).symm⟩
        rintro ⟨other, here, taggedOther⟩
        have same : root = other := by
          injection Option.some.inj (found.symm.trans here)
        exact tagged (same ▸ taggedOther)

/-- When loading a file loses nothing: it loads, or there is no file, or there are no objects. -/
def Safe (files : RdbFiles) (path : Text) (impl : RdbImpl) : Prop :=
  Loadable files path ∨ files path = none ∨ ∀ addr, impl.rdb.objects addr = none

theorem load_safe_iff (files : RdbFiles) (path : Text) (impl : RdbImpl) :
    ((impl.load files path).2 = false → SameData (impl.load files path).1 impl) ↔
      Safe files path impl := by
  rcases load_spec files path impl with ⟨loads, loadable⟩ | ⟨fails, unloadable, left⟩
  · exact iff_of_true (fun fails => absurd (loads.symm.trans fails) nofun) (Or.inl loadable)
  · rw [left]
    by_cases missing : files path = none
    · rw [if_pos missing]
      exact iff_of_true (fun _ => ⟨rfl, rfl, rfl, rfl, rfl, rfl⟩) (Or.inr (Or.inl missing))
    · rw [if_neg missing]
      constructor
      · intro kept
        have same := (kept fails).objects
        exact Or.inr (Or.inr fun addr => (congrFun same addr).symm)
      · rintro (loadable | none' | empty)
        · exact absurd loadable unloadable
        · exact absurd none' missing
        · have objects : (impl.rdb.clear).objects = impl.rdb.objects :=
            funext fun addr => (empty addr).symm
          exact fun _ => ⟨objects, rfl, rfl, rfl, rfl, rfl⟩

/-- When a load that fails loses nothing: exactly when the file can be loaded or is missing, or
there are no objects to lose. Reloading loads the file of the path, if there is a path. -/
theorem failed_load_iff (files : RdbFiles) (path : Text) (impl : RdbImpl) :
    (((impl.load files path).2 = false → SameData (impl.load files path).1 impl) ↔
        Safe files path impl) ∧
      (((impl.reload files).2 = false → SameData (impl.reload files).1 impl) ↔
        impl.path = [] ∨ Safe files impl.path impl) := by
  refine ⟨load_safe_iff files path impl, ?_⟩
  unfold reload
  by_cases pathless : impl.path = []
  · rw [if_pos pathless]
    exact iff_of_true (fun _ => ⟨rfl, rfl, rfl, rfl, rfl, rfl⟩) (Or.inl pathless)
  · rw [if_neg pathless, load_safe_iff]
    exact ⟨Or.inr, fun safe => safe.resolve_left pathless⟩

/-- A controller with a path and an object that is not saved. -/
def edited : RdbImpl :=
  { new with path := ascii "a.rdb", rdb := (RdbController.empty.addObject (labelAt 0)).1 }

/-- A reload of a damaged file loses the objects, and keeps the flag that has them saved over it. -/
theorem failed_load_loses :
    let files : RdbFiles := fun _ => some .malformed
    (edited.load files edited.path).2 = false ∧ (edited.reload files).2 = false ∧
      ¬SameData (edited.load files edited.path).1 edited ∧
      ¬SameData (edited.reload files).1 edited := by
  intro files
  have lost : ∀ after : RdbImpl, after.rdb.objects 0 = none → ¬SameData after edited := by
    intro after gone same
    have kept := congrFun same.objects 0
    rw [gone] at kept
    exact absurd (congrArg Option.isSome kept) (by decide)
  exact ⟨rfl, rfl, lost _ rfl, lost _ rfl⟩

end RdbImpl

section Saved

/-- The controller of the backend and the files, with whether an object has changed since the last
load. -/
structure RdbSession where
  /-- The files. -/
  files : RdbFiles
  /-- The controller. -/
  impl : RdbImpl
  /-- An object has changed. -/
  changed : Prop

/-- What the backend and its users do with the controller. -/
inductive RdbAction
  | loadRdb (files : RdbFiles) (romPath : Text) (size : Option (BitVec 64)) (sha256 : Text)
  | importMap (mapResult : MapLoadResult)
  | edit (mutation : RdbMutation)
  | save (outcome : WriteOutcome)

namespace RdbSession

/-- A new controller. -/
def new : RdbSession := { files := fun _ => none, impl := RdbImpl.new, changed := False }

/-- The session with other objects. -/
def withRdb (session : RdbSession) (rdb : RdbController) : RdbSession :=
  { session with
    impl := { session.impl with rdb }
    changed := session.changed ∨ rdb.objects ≠ session.impl.rdb.objects }

/-- One action. Between loads only the controller writes files; at a load they may be any. -/
inductive Step : RdbSession → RdbAction → RdbSession → Prop
  | loadRdb (session : RdbSession) (files : RdbFiles) (romPath : Text)
    (size : Option (BitVec 64)) (sha256 : Text) :
    Step session (.loadRdb files romPath size sha256)
      { files, impl := session.impl.loadRdb files romPath size sha256, changed := False }
  | importMap (session : RdbSession) (mapResult : MapLoadResult)
    (empty : session.impl.rdb.objectCount = 0) :
    Step session (.importMap mapResult)
      (session.withRdb (importMapToRdb mapResult session.impl.rdb))
  | edit (session : RdbSession) (mutation : RdbMutation) :
    Step session (.edit mutation) (session.withRdb (mutation.apply session.impl.rdb).1)
  | save (session : RdbSession) (outcome : WriteOutcome) :
    Step session (.save outcome)
      { session with
        files := (session.impl.save session.files outcome).1
        impl := (session.impl.save session.files outcome).2.1 }

/-- The file at the path of the controller holds all its objects. -/
def HoldsObjects (files : RdbFiles) (impl : RdbImpl) : Prop :=
  ∃ root, files impl.path = some (.json root) ∧
    root.member (ascii "objects") = some (.array (impl.rdb.listObjects.map objectToJson))

/-- A clean controller whose objects have changed has them in its file. -/
def Written (session : RdbSession) : Prop :=
  session.impl.rdb.dirty = false → session.changed →
    HoldsObjects session.files session.impl

theorem member_objects (impl : RdbImpl) :
    impl.rdbToJson.member (ascii "objects") =
      some (.array (impl.rdb.listObjects.map objectToJson)) :=
  SortedMap.lookup_insert_self _ _ _

/-- The file that has just been written holds the objects. -/
theorem holds_written (files : RdbFiles) (impl : RdbImpl) :
    HoldsObjects (Function.update files impl.path (some (.json impl.rdbToJson)))
      { impl with fileExistsOnDisk := true, rdb := impl.rdb.clean } :=
  ⟨impl.rdbToJson, Function.update_self .., member_objects impl⟩

/-- What saving does. -/
theorem save_spec (files : RdbFiles) (outcome : WriteOutcome) (impl : RdbImpl) :
    (impl.save files outcome = (files, impl, true) ∧
        (impl.rdb.dirty = false ∨ impl.path = [])) ∨
      (impl.rdb.dirty = true ∧ impl.path ≠ [] ∧
        (((impl.save files outcome).2.2 = false ∧ (impl.save files outcome).2.1 = impl) ∨
          ((impl.save files outcome).2.2 = true ∧
            (impl.save files outcome).2.1.rdb.dirty = false ∧
            HoldsObjects (impl.save files outcome).1 (impl.save files outcome).2.1))) := by
  unfold RdbImpl.save
  cases unsaved : impl.rdb.dirty with
  | false => exact Or.inl ⟨rfl, Or.inl rfl⟩
  | true =>
    rw [if_neg nofun]
    by_cases pathless : impl.path = []
    · rw [if_pos pathless]
      exact Or.inl ⟨rfl, Or.inr pathless⟩
    · rw [if_neg pathless]
      refine Or.inr ⟨rfl, pathless, ?_⟩
      unfold RdbImpl.saveAs
      rw [unsaved, if_neg nofun]
      cases outcome with
      | notOpened => exact Or.inl ⟨rfl, rfl⟩
      | removed => exact Or.inl ⟨rfl, rfl⟩
      | written => exact Or.inr ⟨rfl, rfl, holds_written _ impl⟩

/-- Importing a MAP file changes nothing unless it marks the database dirty. -/
theorem importMapToRdb_of_clean (mapResult : MapLoadResult) (rdb : RdbController)
    (clean : (importMapToRdb mapResult rdb).dirty = false) :
    importMapToRdb mapResult rdb = rdb := by
  unfold importMapToRdb at clean ⊢
  split
  · rfl
  · rename_i loaded
    rw [if_neg loaded] at clean
    generalize mapResult.symbols = symbols at clean
    induction symbols generalizing rdb with
    | nil => rfl
    | cons first rest inductionHypothesis =>
      rw [List.foldl_cons] at clean ⊢
      have later := inductionHypothesis _ clean
      rw [later] at clean ⊢
      exact (RdbController.mutated_apply rdb (.addObject first.object)).eq_of_clean clean

/-- Objects that have changed only if the database is dirty leave the file right. -/
theorem Written.withRdb {session : RdbSession} (written : session.Written) {rdb : RdbController}
    (same : rdb.dirty = false → rdb = session.impl.rdb) : (session.withRdb rdb).Written := by
  intro clean changed
  have unchanged := same clean
  rcases changed with before | now
  · have held := written (by rw [← unchanged]; exact clean) before
    unfold RdbSession.withRdb
    rw [unchanged]
    exact held
  · exact absurd (congrArg RdbController.objects unchanged) now

theorem Step.written {session after : RdbSession} {action : RdbAction}
    (step : Step session action after) (written : session.Written) : after.Written := by
  cases step with
  | loadRdb files romPath size sha256 => exact fun _ changed => changed.elim
  | importMap mapResult empty => exact written.withRdb (importMapToRdb_of_clean _ _)
  | edit mutation =>
    exact written.withRdb (RdbController.mutated_apply session.impl.rdb mutation).eq_of_clean
  | save outcome =>
    intro clean changed
    rcases save_spec session.files outcome session.impl with
      ⟨same, _⟩ | ⟨unsaved, _, ⟨_, kept⟩ | ⟨_, _, held⟩⟩
    · dsimp only at clean ⊢
      rw [same] at clean ⊢
      exact written clean changed
    · dsimp only at clean
      rw [kept, unsaved] at clean
      exact nomatch clean
    · exact held

/-- A save that returns true means that the controller is clean, and that the objects are in its
file if any has changed. -/
def SaveSound (session : RdbSession) (outcome : WriteOutcome) : Prop :=
  (session.impl.save session.files outcome).2.2 = true →
    (session.impl.save session.files outcome).2.1.rdb.dirty = false ∧
      (session.changed → HoldsObjects (session.impl.save session.files outcome).1
        (session.impl.save session.files outcome).2.1)

/-- A save that returns true has saved, exactly unless there is something to save and no path. -/
theorem save_sound_iff {actions : List RdbAction} {session : RdbSession}
    (run : Run Step new actions session) (outcome : WriteOutcome) :
    session.SaveSound outcome ↔
      ¬(session.impl.path = [] ∧ session.impl.rdb.dirty = true) := by
  have written : session.Written :=
    run.invariant (fun _ _ _ written step => step.written written) fun _ changed => changed.elim
  unfold SaveSound
  rcases save_spec session.files outcome session.impl with
    ⟨same, clean | pathless⟩ | ⟨unsaved, path, ⟨fails, _⟩ | ⟨_, clean, held⟩⟩
  · rw [same]
    exact iff_of_true (fun _ => ⟨clean, written clean⟩)
      fun lost => absurd (clean.symm.trans lost.2) nofun
  · rw [same]
    cases unsaved : session.impl.rdb.dirty with
    | false =>
      exact iff_of_true (fun _ => ⟨rfl, written unsaved⟩) fun lost => nomatch lost.2
    | true =>
      exact iff_of_false (fun sound => nomatch (sound rfl).1) fun saved => saved ⟨pathless, rfl⟩
  · exact iff_of_true (fun succeeds => absurd (fails.symm.trans succeeds) nofun)
      fun lost => path lost.1
  · exact iff_of_true (fun _ => ⟨clean, fun _ => held⟩) fun lost => path lost.1

/-- The session in which a program is loaded next to a damaged database, and an object is added. -/
def damaged : RdbSession :=
  let files : RdbFiles := fun _ => some .malformed
  let opened := RdbImpl.new.loadRdb files (ascii "a.rom") (some 1) (ascii "00")
  RdbSession.withRdb { files, impl := opened, changed := False }
    (RdbMutation.apply opened.rdb (.addObject (labelAt 0))).1

theorem damaged_run : ∃ actions, Run Step new actions damaged :=
  ⟨_, .cons (.loadRdb new (fun _ => some .malformed) (ascii "a.rom") (some 1) (ascii "00"))
    (.cons (.edit _ (.addObject (labelAt 0))) (.nil _))⟩

/-- The object is not saved. -/
theorem save_loses_edits :
    (∃ actions, Run Step new actions damaged) ∧ ¬damaged.SaveSound .written :=
  ⟨damaged_run, fun sound => absurd (sound (by decide)).1 (by decide)⟩

/-- The same session without a database on disk. -/
theorem save_sound_fresh :
    let opened := RdbImpl.new.loadRdb (fun _ => none) (ascii "a.rom") (some 1) (ascii "00")
    ((opened.edit (.addObject (labelAt 0))).save (fun _ => none) .written).2.1.rdb.dirty =
      false := by
  intro opened
  have run : Run Step new _ _ :=
    .cons (.loadRdb new (fun _ => none) (ascii "a.rom") (some 1) (ascii "00"))
      (.cons (.edit _ (.addObject (labelAt 0))) (.nil _))
  have sound := (save_sound_iff run .written).mpr (by decide)
  exact (sound (by decide)).1

end RdbSession

end Saved

end VectorDebugger

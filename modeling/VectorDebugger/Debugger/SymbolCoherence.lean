import VectorDebugger.Debugger.Backend

/-!
# Coherence of the two annotation stores

The commands that add, rename and comment a symbol keep the database in step: they apply the
same change to the notes of both stores, or to neither. Removal takes the symbol away and leaves
the object. So the stores stay coherent exactly as long as no command removes a symbol that is
there.
-/

namespace VectorDebugger

/-- The commands on symbols. -/
def Command.annotates : Command → Bool
  | .createFunction .. | .renameSymbol .. | .setComment .. | .removeSymbol .. | .addLabel .. => true
  | _ => false

namespace DebugBackend

variable {δ : Type}

/-- An address has a symbol exactly when it has an object, with the same name and comment. -/
def Coherent (backend : DebugBackend δ) : Prop := backend.symbols.notes = backend.rdb.notes

/-- Both stores are the same. -/
def SameStores (after backend : DebugBackend δ) : Prop :=
  after.symbols = backend.symbols ∧ after.rdb = backend.rdb

/-- The command takes a symbol away. -/
def RemovesSymbol (backend : DebugBackend δ) (command : Command) : Prop :=
  ∃ addr, command = .removeSymbol addr ∧ (backend.symbols.symbols addr).isSome = true

theorem createSymbol_notes (backend : DebugBackend δ) (coherent : backend.Coherent)
    (address : Word) (name : Text) (symbolType : SymbolType) (objectType : RdbObjectType) :
    (backend.createSymbol address name symbolType objectType).1.Coherent := by
  obtain ⟨notes, added⟩ := backend.symbols.addSymbol_spec address name symbolType
  unfold Coherent createSymbol
  dsimp only
  rw [notes, added, coherent]
  split
  · rw [RdbController.addObject_notes _ _ rfl]
    rfl
  · rename_i taken
    rw [Notes.add_of_isSome (by simpa [Option.isSome_iff_ne_none] using taken)]

theorem renameSymbol_notes (backend : DebugBackend δ) (coherent : backend.Coherent)
    (address : Word) (name : Text) : (backend.renameSymbol address name).1.Coherent := by
  obtain ⟨notes, renamed⟩ := backend.symbols.renameSymbol_spec address name
  unfold Coherent renameSymbol RdbController.getObject
  dsimp only
  rw [notes, renamed, coherent, RdbController.notes_isSome]
  cases found : backend.rdb.objects address with
  | none =>
    rw [Notes.rename_of_none (by rw [RdbController.notes, found]; rfl)]
    rfl
  | some object => exact (backend.rdb.updateObject_notes found name).symm

theorem setComment_notes (backend : DebugBackend δ) (coherent : backend.Coherent)
    (address : Word) (comment : Text) : (backend.setComment address comment).1.Coherent := by
  obtain ⟨notes, noted⟩ := backend.symbols.setComment_spec address comment
  unfold Coherent setComment
  dsimp only
  rw [notes, noted, coherent]
  split
  · exact (backend.rdb.setComment_notes address comment).symm
  · rename_i free
    rw [Notes.comment_of_none (by simpa using free)]

/-- Removal keeps the stores coherent only where there is nothing to remove. -/
theorem removeSymbol_notes (backend : DebugBackend δ) (coherent : backend.Coherent)
    (address : Word) :
    (backend.removeSymbol address).1.Coherent ↔
      (backend.symbols.symbols address).isSome = false := by
  obtain ⟨notes, _⟩ := backend.symbols.removeSymbol_spec address
  unfold Coherent removeSymbol
  dsimp only
  rw [notes, ← coherent, Notes.remove_eq_iff, SymbolDatabase.notes_isSome]

variable [Chips δ]

omit [Chips δ] in
/-- Stores that are left alone stay as they are. -/
theorem Coherent.of_eq {backend after : DebugBackend δ} (coherent : backend.Coherent)
    (same : after.SameStores backend) : after.Coherent := by
  unfold Coherent
  rw [same.1, same.2]
  exact coherent

omit [Chips δ] in
theorem whenPaused_sameStores (backend : DebugBackend δ) (error : Text) (done : DebugBackend δ)
    (same : done.SameStores backend) : (backend.whenPaused error done).1.SameStores backend := by
  unfold whenPaused
  split
  · exact same
  · exact ⟨rfl, rfl⟩

omit [Chips δ] in
theorem writeMemory_sameStores (backend : DebugBackend δ) (address : Word)
    (writeData : List Byte) : (backend.writeMemory address writeData).SameStores backend := by
  unfold writeMemory
  generalize writeData.zipIdx = entries
  induction entries generalizing backend with
  | nil => exact ⟨rfl, rfl⟩
  | cons entry entries inductionHypothesis => exact inductionHypothesis _

/-- A step leaves the annotations alone. -/
theorem stepInstruction_sameStores (backend : DebugBackend δ) :
    backend.stepInstruction.SameStores backend := by
  unfold stepInstruction
  exact ⟨rfl, rfl⟩

/-- A trace leaves the annotations alone. -/
theorem traceLoop_sameStores (params : TraceExecutionParams) (left : Nat) :
    ∀ (backend : DebugBackend δ) (bounds : Word × Word),
      (traceLoop params left backend bounds).1.SameStores backend := by
  induction left with
  | zero => exact fun backend bounds => ⟨rfl, rfl⟩
  | succ left inductionHypothesis =>
    intro backend bounds
    have stepped := backend.stepInstruction_sameStores
    unfold traceLoop
    split
    · exact ⟨rfl, rfl⟩
    · dsimp only
      split
      · exact stepped
      · have others := inductionHypothesis backend.stepInstruction
        exact ⟨(others _).1.trans stepped.1, (others _).2.trans stepped.2⟩

/-- Only the five annotation commands touch the stores. -/
theorem executeCommand_sameStores (backend : DebugBackend δ) (command : Command)
    (other : command.annotates = false) :
    (backend.executeCommand command).1.SameStores backend := by
  cases command with
  | createFunction | renameSymbol | setComment | removeSymbol | addLabel =>
    exact Bool.noConfusion other
  | step => exact backend.stepInstruction_sameStores
  | executeTrace params =>
    unfold executeCommand
    dsimp only
    split
    · exact ⟨rfl, rfl⟩
    · exact traceLoop_sameStores params _ { backend with traceBusy := true } _
  | memoryWrite address writeData =>
    exact whenPaused_sameStores _ _ _ (backend.writeMemory_sameStores address writeData)
  | registerWrite | ioWrite => exact whenPaused_sameStores _ _ _ ⟨rfl, rfl⟩
  | addBreakpoint address =>
    unfold executeCommand addBreakpoint
    dsimp only
    split <;> exact ⟨rfl, rfl⟩
  | removeBreakpoint address =>
    unfold executeCommand removeBreakpoint
    dsimp only
    split <;> exact ⟨rfl, rfl⟩
  | setBreakpointEnabled address enabled =>
    unfold executeCommand setBreakpointEnabled
    dsimp only
    split <;> exact ⟨rfl, rfl⟩
  | _ => exact ⟨rfl, rfl⟩

/-- One command keeps the stores coherent exactly when it removes no symbol. -/
theorem executeCommand_coherent_iff (backend : DebugBackend δ) (coherent : backend.Coherent)
    (command : Command) :
    (backend.executeCommand command).1.Coherent ↔ ¬ backend.RemovesSymbol command := by
  by_cases annotates : command.annotates = false
  · have kept := coherent.of_eq (backend.executeCommand_sameStores command annotates)
    refine ⟨fun _ => ?_, fun _ => kept⟩
    rintro ⟨addr, rfl, _⟩
    exact Bool.noConfusion annotates
  · cases command with
    | removeSymbol address =>
      refine (backend.removeSymbol_notes coherent address).trans ?_
      simp [RemovesSymbol]
    | createFunction address name =>
      simp [RemovesSymbol, executeCommand, backend.createSymbol_notes coherent address name]
    | addLabel address name =>
      simp [RemovesSymbol, executeCommand, backend.createSymbol_notes coherent address name]
    | renameSymbol address name =>
      simp [RemovesSymbol, executeCommand, backend.renameSymbol_notes coherent address name]
    | setComment address comment =>
      simp [RemovesSymbol, executeCommand, backend.setComment_notes coherent address comment]
    | _ => exact absurd rfl annotates

/-- The state after a sequence of commands. -/
def executeAll (backend : DebugBackend δ) (commands : List Command) : DebugBackend δ :=
  commands.foldl (fun backend command => (backend.executeCommand command).1) backend

theorem executeAll_concat (backend : DebugBackend δ) (done : List Command) (command : Command) :
    backend.executeAll (done ++ [command]) =
      ((backend.executeAll done).executeCommand command).1 := by
  simp [executeAll]

/-- The stores are coherent after every command of a run exactly when no command of the run
removes a symbol that is there. -/
theorem executeAll_coherent_iff (backend : DebugBackend δ) (coherent : backend.Coherent)
    (commands : List Command) :
    (∀ done, done <+: commands → (backend.executeAll done).Coherent) ↔
      ∀ done command, done ++ [command] <+: commands →
        ¬ (backend.executeAll done).RemovesSymbol command := by
  constructor
  · intro throughout done command started
    have before := throughout done ((List.prefix_append done [command]).trans started)
    have after := throughout _ started
    rw [executeAll_concat] at after
    exact (executeCommand_coherent_iff _ before command).mp after
  · intro harmless done
    induction done using List.reverseRecOn with
    | nil => exact fun _ => coherent
    | append_singleton done command inductionHypothesis =>
      intro started
      have before := inductionHypothesis ((List.prefix_append done [command]).trans started)
      rw [executeAll_concat]
      exact (executeCommand_coherent_iff _ before command).mpr (harmless done command started)

/-- A label that is added, renamed and commented. -/
theorem executeAll_coherent_iff_label :
    let start : DebugBackend Unit := init () [] (fun _ => [])
    let commands : List Command :=
      [.addLabel 0x0100 (ascii "loop"), .renameSymbol 0x0100 (ascii "main"),
        .setComment 0x0100 (ascii "entry")]
    (∀ done, done <+: commands → (start.executeAll done).Coherent) ↔
      ∀ done command, done ++ [command] <+: commands →
        ¬ (start.executeAll done).RemovesSymbol command :=
  executeAll_coherent_iff (init () [] fun _ => []) rfl _

/-- Removing a label leaves its object. -/
theorem removeSymbol_leaves_object :
    let start : DebugBackend Unit := init () [] (fun _ => [])
    let done := start.executeAll [.addLabel 0x0100 (ascii "loop"), .removeSymbol 0x0100]
    start.Coherent ∧ (done.symbols.symbols 0x0100).isSome = false ∧
      (done.rdb.objects 0x0100).isSome = true ∧ ¬ done.Coherent := by
  refine ⟨rfl, by decide, by decide, fun coherent => ?_⟩
  have same := congrArg Option.isSome (congrFun coherent 0x0100)
  exact absurd same (by decide)

end DebugBackend

end VectorDebugger

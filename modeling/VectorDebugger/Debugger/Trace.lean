import VectorDebugger.Debugger.Backend
import VectorDebugger.Debugger.Sequence

/-!
# Traces

`executeTraceInternal` steps until an instruction meets an exit condition or the bound is
reached, and reports how many instructions it executed as a difference of sequence numbers. It
also stops when `breakRequested_` is set. `requestPause` sets that flag and only the poll callback
of a frame clears it, so a pause requested while nothing runs cuts the next trace short.
-/

namespace VectorDebugger

namespace Instrumentation

/-- Nothing is kept while recording is off. -/
theorem observeAll_disabled (events : List BusEvent) (inst : Instrumentation)
    (disabled : inst.instrumentationEnabled = false) : inst.observeAll events = inst := by
  induction events with
  | nil => rfl
  | cons event events inductionHypothesis =>
    have kept : inst.observe event = inst := by
      cases event <;>
        simp [observe, onMemoryRead, onMemoryWrite, onIoInput, onIoOutput, disabled]
    exact (congrArg (observeAll · events) kept).trans inductionHypothesis

variable {δ : Type} [Chips δ]

/-- A step takes one sequence number while recording is on, and none while it is off. -/
theorem stepInstructionDetailed_sequence (inst : Instrumentation) (machine : Machine δ) :
    (inst.stepInstructionDetailed machine).instructionSequence =
        inst.instructionSequence + (if inst.instrumentationEnabled then 1 else 0) ∧
      (inst.stepInstructionDetailed machine).instrumentationEnabled =
        inst.instrumentationEnabled := by
  unfold stepInstructionDetailed
  by_cases enabled : inst.instrumentationEnabled = true
  · obtain ⟨_, last, _⟩ := sequences_undetected machine.events (inst.openWindow machine)
      enabled (Or.inl rfl)
    have still : ((inst.openWindow machine).observeAll
        machine.events).instrumentationEnabled = true :=
      (observeAll_instrumentationEnabled _ _).trans enabled
    rw [closeWindow_countInstruction _ machine still, if_pos enabled]
    exact ⟨congrArg (· + 1) last, still.trans enabled.symm⟩
  · have disabled : inst.instrumentationEnabled = false := by simpa using enabled
    rw [observeAll_disabled machine.events (inst.openWindow machine) disabled, if_neg enabled]
    unfold countInstruction closeWindow openWindow
    simp [disabled]

end Instrumentation

namespace DebugBackend

variable {δ : Type} [Chips δ]

/-- The next instruction meets an exit condition: a `RET`, a halt, or a return to the caller. An
address of zero means that there is no caller to return to. -/
def MeetsExit (params : TraceExecutionParams) (backend : DebugBackend δ) : Prop :=
  params.stopOnRet = true ∧ backend.target.board.machine.opcode = 0xc9 ∨
    backend.target.board.machine.opcode = 0x76 ∨
    params.stopOnCallerReturn = true ∧ params.callerReturnAddress ≠ 0 ∧
      backend.stepInstruction.target.pc = params.callerReturnAddress

instance (params : TraceExecutionParams) (backend : DebugBackend δ) :
    Decidable (MeetsExit params backend) := by
  unfold MeetsExit
  infer_instance

/-- The first instruction that meets an exit condition is the one with the given number, counted
from one. -/
def FirstExit (params : TraceExecutionParams) (backend : DebugBackend δ) (number : Nat) : Prop :=
  ∃ last, number = last + 1 ∧ MeetsExit params (stepInstruction^[last] backend) ∧
    ∀ i < last, ¬ MeetsExit params (stepInstruction^[i] backend)

/-- The trace executes instructions up to the bound or the first exit, whichever comes first, and
reports their number. -/
def TracesInFull (backend : DebugBackend δ) (params : TraceExecutionParams) : Prop :=
  ∃ count, (backend.executeTraceInternal params).1 = stepInstruction^[count] backend ∧
    (backend.executeTraceInternal params).2.instructionsExecuted.toNat = count ∧
    (∀ number, FirstExit params backend number →
      count = min params.maxInstructions.toNat number) ∧
    ((∀ i, ¬ MeetsExit params (stepInstruction^[i] backend)) →
      count = params.maxInstructions.toNat)

theorem exitCondition_isSome_iff (params : TraceExecutionParams) (backend : DebugBackend δ) :
    (exitCondition params (backend.target.peekMemory backend.target.pc)
      backend.stepInstruction.target.pc).isSome = true ↔ MeetsExit params backend := by
  have seen : backend.target.peekMemory backend.target.pc =
      backend.target.board.machine.opcode := Memory.peek_eq_read _ _ _
  rw [seen]
  unfold exitCondition MeetsExit
  split
  · rename_i ret
    simp only [Bool.and_eq_true, beq_iff_eq] at ret
    simp [ret]
  · rename_i ret
    simp only [Bool.and_eq_true, beq_iff_eq] at ret
    split
    · rename_i halt
      simp only [beq_iff_eq] at halt
      simp [halt]
    · rename_i halt
      simp only [beq_iff_eq] at halt
      split
      · rename_i back
        simp only [Bool.and_eq_true, bne_iff_ne, beq_iff_eq] at back
        obtain ⟨⟨asked, address⟩, reached⟩ := back
        exact ⟨fun _ => .inr (.inr ⟨asked, address, reached⟩), fun _ => rfl⟩
      · rename_i back
        simp only [Bool.and_eq_true, bne_iff_ne, beq_iff_eq] at back
        simp only [Option.isSome_none, Bool.false_eq_true, false_iff]
        rintro (ret' | halt' | back')
        · exact ret ret'
        · exact halt halt'
        · exact back ⟨⟨back'.1, back'.2.1⟩, back'.2.2⟩

/-- While no flag is set, the loop steps up to the bound or to the first exit. -/
theorem traceLoop_spec (params : TraceExecutionParams) (left : Nat) :
    ∀ (backend : DebugBackend δ) (bounds : Word × Word), backend.breakRequested = false →
      backend.quitRequested = false →
      ∃ count ≤ left, (traceLoop params left backend bounds).1 = stepInstruction^[count] backend ∧
        (∀ i, i + 1 < count → ¬ MeetsExit params (stepInstruction^[i] backend)) ∧
        (count = left ∨ ∃ last, count = last + 1 ∧
          MeetsExit params (stepInstruction^[last] backend)) := by
  induction left with
  | zero =>
    intro backend bounds _ _
    exact ⟨0, Nat.le_refl _, rfl, fun i below => by omega, .inl rfl⟩
  | succ left inductionHypothesis =>
    intro backend bounds unbroken staying
    have exits := exitCondition_isSome_iff params backend
    unfold traceLoop
    simp only [unbroken, staying, Bool.or_self, Bool.false_eq_true, if_false]
    split
    · rename_i reason found
      rw [found] at exits
      exact ⟨1, by omega, rfl, fun i below => by omega, .inr ⟨0, rfl, exits.mp rfl⟩⟩
    · rename_i found
      rw [found] at exits
      have passes : ¬ MeetsExit params backend := fun meets => by simpa using exits.mpr meets
      have goesOn : backend.stepInstruction.breakRequested = false ∧
          backend.stepInstruction.quitRequested = false := by
        unfold stepInstruction
        exact ⟨unbroken, staying⟩
      obtain ⟨count, bound, reached, earlier, ended⟩ :=
        inductionHypothesis backend.stepInstruction _ goesOn.1 goesOn.2
      refine ⟨count + 1, by omega, reached, ?_, ?_⟩
      · intro i below
        cases i with
        | zero => exact passes
        | succ i => exact earlier i (by omega)
      · rcases ended with full | ⟨last, rfl, meets⟩
        · exact .inl (by omega)
        · exact .inr ⟨last + 1, rfl, meets⟩

/-- A set flag stops the loop before its first instruction. -/
theorem traceLoop_of_break (params : TraceExecutionParams) (left : Nat) (backend : DebugBackend δ)
    (bounds : Word × Word) (broken : backend.breakRequested = true) :
    (traceLoop params left backend bounds).1 = backend := by
  cases left with
  | zero => rfl
  | succ left =>
    unfold traceLoop
    simp [broken]

theorem iterate_stepInstruction_sequence (count : Nat) :
    ∀ backend : DebugBackend δ,
      (stepInstruction^[count] backend).instrumentation.instructionSequence =
        backend.instrumentation.instructionSequence +
          (if backend.instrumentation.instrumentationEnabled then count else 0) := by
  induction count with
  | zero => simp
  | succ count inductionHypothesis =>
    intro backend
    obtain ⟨sequence, enabled⟩ :=
      backend.instrumentation.stepInstructionDetailed_sequence backend.target.board.machine
    rw [Function.iterate_succ_apply, inductionHypothesis]
    change (backend.instrumentation.stepInstructionDetailed _).instructionSequence +
      (if (backend.instrumentation.stepInstructionDetailed _).instrumentationEnabled then count
        else 0) = _
    rw [sequence, enabled]
    split <;> omega

/-- The reported number is the count of steps while recording is on, and zero while it is off. -/
theorem executeTraceInternal_instructionsExecuted (backend : DebugBackend δ)
    (params : TraceExecutionParams) (count : Nat)
    (reached : (backend.executeTraceInternal params).1 = stepInstruction^[count] backend)
    (bound : count ≤ params.maxInstructions.toNat) :
    (backend.executeTraceInternal params).2.instructionsExecuted.toNat =
      if backend.instrumentation.instrumentationEnabled then count else 0 := by
  have difference : (backend.executeTraceInternal params).2.instructionsExecuted =
      BitVec.ofNat 32
        ((backend.executeTraceInternal params).1.instrumentation.instructionSequence -
          backend.instrumentation.instructionSequence) := rfl
  have fits := params.maxInstructions.isLt
  rw [difference, reached, iterate_stepInstruction_sequence, Nat.add_sub_cancel_left,
    BitVec.toNat_ofNat]
  split
  · exact Nat.mod_eq_of_lt (by omega)
  · rfl

/-- Unless the bound is zero, a trace in full executes something. -/
theorem TracesInFull.positive {backend : DebugBackend δ} {params : TraceExecutionParams}
    (full : backend.TracesInFull params) (asked : 0 < params.maxInstructions.toNat) :
    0 < (backend.executeTraceInternal params).2.instructionsExecuted.toNat := by
  obtain ⟨count, _, reported, first, never⟩ := full
  rw [reported]
  by_cases exits : ∃ i, MeetsExit params (stepInstruction^[i] backend)
  · have number := first (Nat.find exits + 1)
      ⟨_, rfl, Nat.find_spec exits, fun i below => Nat.find_min exits below⟩
    omega
  · rw [never fun i meets => exits ⟨i, meets⟩]
    exact asked

/-- A trace that no flag interrupts while it runs is executed in full and reported right exactly
when it is asked for nothing, or when no break request is left over and recording is on. -/
theorem tracesInFull_iff (backend : DebugBackend δ) (params : TraceExecutionParams)
    (staying : backend.quitRequested = false) :
    backend.TracesInFull params ↔
      params.maxInstructions = 0 ∨
        backend.breakRequested = false ∧
          backend.instrumentation.instrumentationEnabled = true := by
  have reached : (backend.executeTraceInternal params).1 =
      (traceLoop params params.maxInstructions.toNat backend
        (backend.target.sp, backend.target.sp)).1 := rfl
  constructor
  · intro full
    by_cases nothing : params.maxInstructions = 0
    · exact .inl nothing
    have asked : 0 < params.maxInstructions.toNat := by
      rw [Nat.pos_iff_ne_zero]
      intro zero
      exact nothing (BitVec.eq_of_toNat_eq zero)
    have positive := full.positive asked
    refine .inr ?_
    by_cases broken : backend.breakRequested = true
    · rw [traceLoop_of_break _ _ _ _ broken] at reached
      rw [executeTraceInternal_instructionsExecuted backend params 0 reached (Nat.zero_le _)]
        at positive
      simp at positive
    · obtain ⟨count, bound, steps, _⟩ := traceLoop_spec params params.maxInstructions.toNat
        backend (backend.target.sp, backend.target.sp) (by simpa using broken) staying
      rw [executeTraceInternal_instructionsExecuted backend params count (reached.trans steps)
        bound] at positive
      refine ⟨by simpa using broken, ?_⟩
      by_contra disabled
      rw [if_neg disabled] at positive
      exact Nat.lt_irrefl 0 positive
  · rintro (nothing | ⟨unbroken, enabled⟩)
    · have none' : params.maxInstructions.toNat = 0 := congrArg BitVec.toNat nothing
      rw [none'] at reached
      refine ⟨0, reached, ?_, fun number _ => by omega, fun _ => none'.symm⟩
      rw [executeTraceInternal_instructionsExecuted backend params 0 reached (Nat.zero_le _)]
      split <;> rfl
    · obtain ⟨count, bound, steps, earlier, ended⟩ := traceLoop_spec params
        params.maxInstructions.toNat backend (backend.target.sp, backend.target.sp) unbroken staying
      refine ⟨count, reached.trans steps, ?_, ?_, ?_⟩
      · rw [executeTraceInternal_instructionsExecuted backend params count
          (reached.trans steps) bound, if_pos enabled]
      · rintro number ⟨last, rfl, meets, before⟩
        have late : ¬ last + 1 < count := fun early => earlier last early meets
        rcases ended with all | ⟨final, rfl, final'⟩
        · omega
        · have early : ¬ final < last := fun early => before final early final'
          omega
      · intro never
        rcases ended with all | ⟨final, _, meets⟩
        · exact all
        · exact absurd meets (never final)

/-- A trace of one halt. -/
theorem tracesInFull_iff_halt :
    let start : DebugBackend Unit := init () [0x76] (fun _ => [])
    start.TracesInFull .default ↔
      TraceExecutionParams.default.maxInstructions = 0 ∨
        start.breakRequested = false ∧
          start.instrumentation.instrumentationEnabled = true :=
  tracesInFull_iff (init () [0x76] fun _ => []) .default rfl

/-- A pause requested while the debugger waits for a command makes the next trace execute nothing,
though its first instruction is a halt. -/
theorem pause_cuts_next_trace :
    let waiting : DebugBackend Unit := ((init () [0x76] fun _ => []).runUntilPause []).backend
    let submitted := waiting.raise .requestPause
    let done := submitted.processCommand
      { command := .executeTrace .default, withdrawn := false }
    submitted.quitRequested = false ∧ FirstExit .default submitted 1 ∧
      done.outcome.trace.map (·.instructionsExecuted) = some 0 ∧
      ¬ submitted.TracesInFull .default := by
  refine ⟨rfl, ⟨0, rfl, .inr (.inl (by decide)), fun i below => by omega⟩, ?_, ?_⟩
  · decide
  · intro full
    exact absurd (full.positive (by decide)) (by decide)

end DebugBackend

end VectorDebugger

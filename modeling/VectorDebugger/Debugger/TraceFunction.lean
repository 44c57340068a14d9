import VectorDebugger.Debugger.TemporaryBreakpoints
import VectorDebugger.Debugger.Trace
import VectorDebugger.Machine.StackEffect

/-!
# Tracing a function

`traceFunction` puts a breakpoint at the function, runs until the debugger is paused, and traces
from where the processor stands then. It does not ask why the run stopped or where, and the trace
takes the first `RET` opcode it meets for the return of the function.
-/

namespace VectorDebugger

namespace DebugAdapter

variable {δ : Type} [Chips δ]

/-- The target after single steps. -/
def steps (target : DebugAdapter δ) (count : Nat) : DebugAdapter δ := stepInstruction^[count] target

/-- The opcode that a step will execute. -/
def opcodeAt (target : DebugAdapter δ) (index : Nat) : Byte :=
  (target.steps index).board.machine.opcode

/-- By how much the first steps move the stack pointer in all. -/
def stackMoved (target : DebugAdapter δ) (count : Nat) : Word :=
  ((List.range count).map fun index => (target.steps index).board.machine.stackChange).sum

theorem steps_succ (target : DebugAdapter δ) (count : Nat) :
    target.steps (count + 1) = target.stepInstruction.steps count :=
  Function.iterate_succ_apply _ _ _

theorem steps_succ_last (target : DebugAdapter δ) (count : Nat) :
    target.steps (count + 1) = (target.steps count).stepInstruction :=
  Function.iterate_succ_apply' _ _ _

theorem stepInstruction_cpu (target : DebugAdapter δ) :
    target.stepInstruction.board.machine.cpu = target.board.machine.next.cpu :=
  (target.board.singleStep_spec true).1

/-- The moves of the stack pointer add up. -/
theorem steps_sp (target : DebugAdapter δ) (count : Nat) :
    (target.steps count).sp = target.sp + target.stackMoved count := by
  induction count with
  | zero => exact (BitVec.add_zero target.sp).symm
  | succ count inductionHypothesis =>
    have moved : (target.steps (count + 1)).sp =
        (target.steps count).sp + (target.steps count).board.machine.stackChange := by
      rw [steps_succ_last]
      unfold sp
      rw [stepInstruction_cpu]
      exact Machine.next_sp _
    unfold stackMoved at *
    rw [moved, inductionHypothesis, List.range_succ, List.map_append, List.sum_append,
      List.map_singleton, List.sum_singleton, add_assoc]

end DebugAdapter

/-- A run of the loop of `executeTraceInternal`. -/
structure TraceRun (δ : Type) where
  /-- The state reached. -/
  backend : DebugBackend δ
  /-- The stack bounds. -/
  bounds : Word × Word
  /-- The exit reason with the program counter, unless the bound ended the loop. -/
  ended : Option (ExitReason × Word)
  /-- The program counters of the instructions executed, for statements about the run. -/
  executed : List Word

namespace DebugBackend

variable {δ : Type} [Chips δ]

/-- The loop of `executeTraceInternal` amid other threads: the flags they raise before each test. -/
def traceRun (params : TraceExecutionParams) :
    Nat → (Nat → Signals) → DebugBackend δ → Word × Word → TraceRun δ
  | 0, _, backend, bounds => { backend, bounds, ended := none, executed := [] }
  | left + 1, signals, backend, bounds =>
    let seen := backend.raise (signals 0)
    if seen.breakRequested || seen.quitRequested then
      { backend := seen, bounds, ended := some (.timeout, seen.target.pc), executed := [] }
    else
      let pc := seen.target.pc
      let opcode := seen.target.peekMemory pc
      let stepped := seen.stepInstruction
      let newSp := stepped.target.sp
      let bounds' := (if newSp < bounds.1 then newSp else bounds.1,
        if newSp > bounds.2 then newSp else bounds.2)
      match exitCondition params opcode stepped.target.pc with
      | some reason =>
        { backend := stepped, bounds := bounds', ended := some (reason, pc), executed := [pc] }
      | none =>
        let rest := traceRun params left (fun index => signals (index + 1)) stepped bounds'
        { rest with executed := pc :: rest.executed }

/-- The result that `executeTraceInternal` makes of such a run. -/
def traceResult (backend : DebugBackend δ) (run : TraceRun δ) : TraceExecutionResult :=
  let exit := run.ended.getD (.timeout, run.backend.target.pc)
  let startSequence := backend.instrumentation.instructionSequence
  let endSequence := run.backend.instrumentation.instructionSequence
  { startSequence, endSequence
    instructionsExecuted := BitVec.ofNat 32 (endSequence - startSequence)
    exitPc := exit.2, entrySp := backend.target.sp, exitSp := run.backend.target.sp
    minSp := run.bounds.1, maxSp := run.bounds.2, exitReason := exit.1 }

/-- While no flag is raised, this is the loop of `executeTraceInternal`. -/
theorem traceRun_none (params : TraceExecutionParams) (left : Nat) :
    ∀ (backend : DebugBackend δ) (bounds : Word × Word),
      traceLoop params left backend bounds =
        ((traceRun params left (fun _ => .none) backend bounds).backend,
          (traceRun params left (fun _ => .none) backend bounds).bounds,
          (traceRun params left (fun _ => .none) backend bounds).ended) := by
  induction left with
  | zero => exact fun backend bounds => rfl
  | succ left inductionHypothesis =>
    intro backend bounds
    have unraised : backend.raise .none = backend := by
      unfold raise Signals.none
      simp only [Bool.or_false]
    unfold traceLoop traceRun
    dsimp only
    rw [unraised]
    split
    · rfl
    · generalize exitCondition params (backend.target.peekMemory backend.target.pc)
        backend.stepInstruction.target.pc = found
      cases found with
      | some reason => rfl
      | none => exact inductionHypothesis _ _

/-- `ExecuteTrace` in `processCommand`, which pauses the machine first. -/
def executeTraceRun (backend : DebugBackend δ) (params : TraceExecutionParams)
    (signals : Nat → Signals) : TraceRun δ :=
  traceRun params params.maxInstructions.toNat signals
    { backend with
      running := false, state := .paused, pauseRequested := false, traceBusy := true }
    (backend.target.sp, backend.target.sp)

theorem executeTraceInternal_result (backend : DebugBackend δ) (params : TraceExecutionParams) :
    (backend.executeTraceInternal params).2 =
      backend.traceResult (traceRun params params.maxInstructions.toNat (fun _ => .none) backend
        (backend.target.sp, backend.target.sp)) := by
  unfold executeTraceInternal traceResult
  dsimp only
  rw [traceRun_none]

theorem executeCommand_trace (backend : DebugBackend δ) (params : TraceExecutionParams)
    (free : backend.traceBusy = false) :
    (backend.executeCommand (.executeTrace params)).2.trace =
      some ({ backend with traceBusy := true }.executeTraceInternal params).2 := by
  have notBusy : ¬ backend.traceBusy = true := by
    rw [free]
    exact Bool.false_ne_true
  unfold executeCommand
  dsimp only
  rw [if_neg notBusy]

/-- While no flag is raised, the command delivers the result of this run. -/
theorem processCommand_trace (backend : DebugBackend δ) (params : TraceExecutionParams)
    (staying : backend.quitRequested = false) (free : backend.traceBusy = false) :
    (backend.processCommand
        { command := .executeTrace params, withdrawn := false }).outcome.trace =
      some (backend.traceResult (backend.executeTraceRun params fun _ => .none)) := by
  have goesOn : ¬ (backend.quitRequested &&
      (Command.executeTrace params != Command.quit)) = true := by
    rw [staying, Bool.false_and]
    exact Bool.false_ne_true
  unfold processCommand
  dsimp only
  rw [if_neg Bool.false_ne_true, if_neg goesOn]
  refine (executeCommand_trace
    { backend with running := false, state := .paused, pauseRequested := false }
    params free).trans ?_
  rw [executeTraceInternal_result]
  rfl

/-! ### What a trace executes -/

/-- No flag stops the first instructions of a trace. -/
def Undisturbed (backend : DebugBackend δ) (signals : Nat → Signals) (count : Nat) : Prop :=
  backend.breakRequested = false ∧ backend.quitRequested = false ∧
    ∀ index < count, (signals index).brk = false ∧ (signals index).quit = false

/-- The trace ends at the `RET` opcode with the given index: it meets no other one and no halt
before, and neither a flag nor the bound stops it. -/
structure ReturnsAt (backend : DebugBackend δ) (signals : Nat → Signals) (bound last : Nat) :
    Prop where
  /-- The bound. -/
  within : last < bound
  /-- The flags. -/
  undisturbed : backend.Undisturbed signals (last + 1)
  /-- A `RET`. -/
  ret : backend.target.opcodeAt last = 0xc9
  /-- The first one. -/
  first : ∀ index < last,
    backend.target.opcodeAt index ≠ 0xc9 ∧ backend.target.opcodeAt index ≠ 0x76

/-- The exit conditions of `traceFunction`. -/
theorem exitCondition_traceFunction (opcode : Byte) (pcAfter : Word) :
    exitCondition traceFunctionParams opcode pcAfter =
      if opcode = 0xc9 then some .ret else if opcode = 0x76 then some .halt else none := by
  unfold exitCondition traceFunctionParams
  simp

theorem peek_pc (backend : DebugBackend δ) :
    backend.target.peekMemory backend.target.pc = backend.target.opcodeAt 0 :=
  Memory.peek_eq_read _ _ _

omit [Chips δ] in
theorem undisturbed_one (backend : DebugBackend δ) (signals : Nat → Signals) :
    backend.Undisturbed signals 1 ↔
      ((backend.raise (signals 0)).breakRequested ||
        (backend.raise (signals 0)).quitRequested) = false := by
  unfold Undisturbed raise
  simp only [Nat.lt_one_iff, forall_eq, Bool.or_eq_false_iff]
  tauto

omit [Chips δ] in
theorem Undisturbed.mono {backend : DebugBackend δ} {signals : Nat → Signals} {count fewer : Nat}
    (undisturbed : backend.Undisturbed signals count) (le : fewer ≤ count) :
    backend.Undisturbed signals fewer :=
  ⟨undisturbed.1, undisturbed.2.1, fun index below =>
    undisturbed.2.2 index (Nat.lt_of_lt_of_le below le)⟩

/-- The flags seen later are those that stay after the first test. -/
theorem undisturbed_succ (backend : DebugBackend δ) (signals : Nat → Signals) (count : Nat) :
    backend.Undisturbed signals (count + 1) ↔ backend.Undisturbed signals 1 ∧
      (backend.raise (signals 0)).stepInstruction.Undisturbed
        (fun index => signals (index + 1)) count := by
  have brk : (backend.raise (signals 0)).stepInstruction.breakRequested =
      (backend.breakRequested || (signals 0).brk) := by
    unfold stepInstruction
    rfl
  have quit : (backend.raise (signals 0)).stepInstruction.quitRequested =
      (backend.quitRequested || (signals 0).quit) := by
    unfold stepInstruction
    rfl
  unfold Undisturbed
  rw [brk, quit, Bool.or_eq_false_iff, Bool.or_eq_false_iff]
  constructor
  · rintro ⟨unbroken, staying, none⟩
    obtain ⟨brk, quit⟩ := none 0 (Nat.succ_pos count)
    refine ⟨⟨unbroken, staying, fun index below => none index ?_⟩,
      ⟨unbroken, brk⟩, ⟨staying, quit⟩, fun index below => none _ (Nat.succ_lt_succ below)⟩
    exact Nat.lt_of_lt_of_le below (Nat.succ_le_succ (Nat.zero_le count))
  · rintro ⟨⟨unbroken, staying, first⟩, -, -, later⟩
    refine ⟨unbroken, staying, fun index below => ?_⟩
    cases index with
    | zero => exact first 0 Nat.one_pos
    | succ index => exact later index (Nat.lt_of_succ_lt_succ below)

/-- After an instruction that ends nothing, the trace goes on from the next. -/
theorem returnsAt_succ (backend : DebugBackend δ) (signals : Nat → Signals) (bound last : Nat)
    (undisturbed : backend.Undisturbed signals 1) (notRet : backend.target.opcodeAt 0 ≠ 0xc9)
    (notHalt : backend.target.opcodeAt 0 ≠ 0x76) :
    backend.ReturnsAt signals (bound + 1) (last + 1) ↔
      (backend.raise (signals 0)).stepInstruction.ReturnsAt
        (fun index => signals (index + 1)) bound last := by
  have opcode : ∀ index, (backend.raise (signals 0)).stepInstruction.target.opcodeAt index =
      backend.target.opcodeAt (index + 1) := by
    intro index
    unfold DebugAdapter.opcodeAt
    rw [DebugAdapter.steps_succ]
    rfl
  constructor
  · rintro ⟨within, calm, ret, first⟩
    refine ⟨Nat.lt_of_succ_lt_succ within, ((undisturbed_succ _ _ _).mp calm).2,
      (opcode last).trans ret, fun index below => ?_⟩
    rw [opcode]
    exact first _ (Nat.succ_lt_succ below)
  · rintro ⟨within, calm, ret, first⟩
    refine ⟨Nat.succ_lt_succ within, (undisturbed_succ _ _ _).mpr ⟨undisturbed, calm⟩,
      (opcode last).symm.trans ret, fun index below => ?_⟩
    cases index with
    | zero => exact ⟨notRet, notHalt⟩
    | succ index =>
      rw [← opcode]
      exact first _ (Nat.lt_of_succ_lt_succ below)

/-- What a trace does with its first instruction. -/
theorem traceRun_succ (bound : Nat) (signals : Nat → Signals) (backend : DebugBackend δ)
    (bounds : Word × Word) :
    ∃ bounds', traceRun traceFunctionParams (bound + 1) signals backend bounds =
      if (backend.raise (signals 0)).breakRequested ||
          (backend.raise (signals 0)).quitRequested then
        { backend := backend.raise (signals 0), bounds
          ended := some (.timeout, backend.target.pc), executed := [] }
      else if backend.target.opcodeAt 0 = 0xc9 then
        { backend := (backend.raise (signals 0)).stepInstruction, bounds := bounds'
          ended := some (.ret, backend.target.pc), executed := [backend.target.pc] }
      else if backend.target.opcodeAt 0 = 0x76 then
        { backend := (backend.raise (signals 0)).stepInstruction, bounds := bounds'
          ended := some (.halt, backend.target.pc), executed := [backend.target.pc] }
      else
        let rest := traceRun traceFunctionParams bound (fun index => signals (index + 1))
          (backend.raise (signals 0)).stepInstruction bounds'
        { rest with executed := backend.target.pc :: rest.executed } := by
  let newSp := (backend.raise (signals 0)).stepInstruction.target.sp
  refine ⟨(if newSp < bounds.1 then newSp else bounds.1,
    if newSp > bounds.2 then newSp else bounds.2), ?_⟩
  rw [traceRun]
  dsimp only
  rw [peek_pc, exitCondition_traceFunction]
  split
  · rfl
  · have opcode : (backend.raise (signals 0)).target.opcodeAt 0 = backend.target.opcodeAt 0 := rfl
    rw [opcode]
    split_ifs <;> rfl

/-- A trace executes single steps, and ends on a `RET` as stated. -/
theorem traceRun_spec (bound : Nat) :
    ∀ (signals : Nat → Signals) (backend : DebugBackend δ) (bounds : Word × Word),
      let run := traceRun traceFunctionParams bound signals backend bounds
      (∀ pc, run.executed.head? = some pc ↔
        0 < bound ∧ backend.Undisturbed signals 1 ∧ pc = backend.target.pc) ∧
      ((∃ pc, run.ended = some (.ret, pc)) ↔ ∃ last, backend.ReturnsAt signals bound last) ∧
      ∀ last, backend.ReturnsAt signals bound last →
        run.backend.target = backend.target.steps (last + 1) := by
  induction bound with
  | zero =>
    intro signals backend bounds run
    refine ⟨fun pc => ⟨nofun, fun held => absurd held.1 (Nat.lt_irrefl 0)⟩, ⟨?_, ?_⟩, ?_⟩
    · rintro ⟨pc, ended⟩
      cases ended
    · rintro ⟨last, returns⟩
      exact absurd returns.within (Nat.not_lt_zero last)
    · exact fun last returns => absurd returns.within (Nat.not_lt_zero last)
  | succ bound inductionHypothesis =>
    intro signals backend bounds
    obtain ⟨bounds', step⟩ := traceRun_succ bound signals backend bounds
    have flags := backend.undisturbed_one signals
    rw [step]
    dsimp only
    split_ifs with disturbed isRet isHalt
    · have never : ¬ backend.Undisturbed signals 1 := by
        rw [flags, disturbed]
        exact nofun
      have notReturns : ∀ last, ¬ backend.ReturnsAt signals (bound + 1) last := fun last returns =>
        never (returns.undisturbed.mono (Nat.succ_le_succ (Nat.zero_le last)))
      refine ⟨fun pc => ⟨nofun, fun held => absurd held.2.1 never⟩, ⟨?_, ?_⟩, ?_⟩
      · rintro ⟨pc, ended⟩
        cases ended
      · rintro ⟨last, returns⟩
        exact absurd returns (notReturns last)
      · exact fun last returns => absurd returns (notReturns last)
    all_goals
      have calm : backend.Undisturbed signals 1 :=
        flags.mpr (Bool.eq_false_of_not_eq_true disturbed)
      have head : ∀ pc, some backend.target.pc = some pc ↔
          0 < bound + 1 ∧ backend.Undisturbed signals 1 ∧ pc = backend.target.pc := fun pc =>
        ⟨fun same => ⟨Nat.succ_pos bound, calm, (Option.some.inj same).symm⟩, fun held => by
          rw [held.2.2]⟩
    · have here : backend.ReturnsAt signals (bound + 1) 0 :=
        ⟨Nat.succ_pos bound, calm, isRet, fun index below => absurd below (Nat.not_lt_zero index)⟩
      refine ⟨head, ⟨fun _ => ⟨0, here⟩, fun _ => ⟨_, rfl⟩⟩, fun last returns => ?_⟩
      cases last with
      | zero => rfl
      | succ last => exact absurd isRet (returns.first 0 (Nat.succ_pos last)).1
    · have notReturns : ∀ last, ¬ backend.ReturnsAt signals (bound + 1) last := by
        intro last returns
        cases last with
        | zero => exact isRet returns.ret
        | succ last => exact (returns.first 0 (Nat.succ_pos last)).2 isHalt
      refine ⟨head, ⟨?_, ?_⟩, fun last returns => absurd returns (notReturns last)⟩
      · rintro ⟨pc, ended⟩
        cases ended
      · rintro ⟨last, returns⟩
        exact absurd returns (notReturns last)
    · obtain ⟨-, ended, reached⟩ := inductionHypothesis (fun index => signals (index + 1))
        (backend.raise (signals 0)).stepInstruction bounds'
      have later := fun last => backend.returnsAt_succ signals bound last calm isRet isHalt
      have notFirst : ¬ backend.ReturnsAt signals (bound + 1) 0 := fun returns => isRet returns.ret
      refine ⟨head, ended.trans ⟨?_, ?_⟩, fun last returns => ?_⟩
      · rintro ⟨last, returns⟩
        exact ⟨last + 1, (later last).mpr returns⟩
      · rintro ⟨last, returns⟩
        cases last with
        | zero => exact absurd returns notFirst
        | succ last => exact ⟨last, (later last).mp returns⟩
      · cases last with
        | zero => exact absurd returns notFirst
        | succ last =>
          refine (reached last ((later last).mp returns)).trans ?_
          rw [DebugAdapter.steps_succ backend.target (last + 1)]
          rfl

/-! ### What `traceFunction` reports -/

/-- The emulation thread executes the `ExecuteTrace` command of a call of `traceFunction` in this
state, whatever it and other clients have done since the call began. -/
def TraceStarts (address : Word) (start : Call δ) (backend : DebugBackend δ) : Prop :=
  ∃ reached moments,
    Calls [.add address, .request .requestRunFuture, .waitForPause] start moments reached ∧
      reached.backend.state = .paused ∧ reached.backend.Reaches backend ∧
      backend.quitRequested = false

/-- The run of that command. -/
def traceFunctionRun (backend : DebugBackend δ) (signals : Nat → Signals) : TraceRun δ :=
  backend.executeTraceRun traceFunctionParams signals

/-- The trace is one of the function at the address: it begins there, and when it ends on a `RET`
the function has returned to where the stack pointed when the trace began. -/
structure TracesFunction (backend : DebugBackend δ) (address : Word) (signals : Nat → Signals) :
    Prop where
  /-- The first instruction is at the address. -/
  entry : ∀ pc ∈ (backend.traceFunctionRun signals).executed.head?, pc = address
  /-- The `RET` popped the return address that was on top of the stack. -/
  returned :
    (backend.traceResult (backend.traceFunctionRun signals)).exitReason = .ret →
      (backend.traceResult (backend.traceFunctionRun signals)).exitSp =
          (backend.traceResult (backend.traceFunctionRun signals)).entrySp + 2 ∧
        (backend.traceFunctionRun signals).backend.target.pc =
          backend.target.board.machine.stackTop

/-- The processor is at the address, unless a flag keeps the trace from beginning, and before the
first `RET` opcode, where the trace ends, the moves of the stack pointer cancel out and leave the
return address where it was. -/
structure EntersAndBalances (backend : DebugBackend δ) (address : Word)
    (signals : Nat → Signals) : Prop where
  /-- The run has stopped at the address. -/
  entry : backend.Undisturbed signals 1 → backend.target.pc = address
  /-- Calls, returns and other uses of the stack are balanced. -/
  balanced : ∀ last,
    backend.ReturnsAt signals traceFunctionParams.maxInstructions.toNat last →
      backend.target.stackMoved last = 0 ∧
        (backend.target.steps last).board.machine.stackTop =
          backend.target.board.machine.stackTop

/-- A `RET` adds two to the stack pointer and goes to the word on top of the stack. -/
theorem steps_ret (target : DebugAdapter δ) (last : Nat) (ret : target.opcodeAt last = 0xc9) :
    (target.steps (last + 1)).sp = target.sp + target.stackMoved last + 2 ∧
      (target.steps (last + 1)).pc = (target.steps last).board.machine.stackTop := by
  have decoded : decode (target.steps last).board.machine.opcode = .ret := by
    unfold DebugAdapter.opcodeAt at ret
    rw [ret]
    decide
  constructor
  · have moved : (target.steps last).board.machine.stackChange = 2 := by
      unfold Machine.stackChange
      rw [decoded]
    rw [target.steps_sp]
    unfold DebugAdapter.stackMoved
    rw [List.range_succ, List.map_append, List.sum_append, List.map_singleton, List.sum_singleton,
      moved, add_assoc]
  · rw [DebugAdapter.steps_succ_last]
    unfold DebugAdapter.pc
    rw [DebugAdapter.stepInstruction_cpu]
    exact Machine.next_pc_of_ret _ decoded

theorem tracesFunction_iff (backend : DebugBackend δ) (address : Word) (signals : Nat → Signals) :
    backend.TracesFunction address signals ↔ backend.EntersAndBalances address signals := by
  have positive : 0 < traceFunctionParams.maxInstructions.toNat := by decide
  obtain ⟨head, ended, reached⟩ := traceRun_spec traceFunctionParams.maxInstructions.toNat signals
    { backend with
      running := false, state := .paused, pauseRequested := false, traceBusy := true }
    (backend.target.sp, backend.target.sp)
  -- pausing the machine changes neither the target nor the flags that a trace tests
  have calm : ∀ count, ({ backend with
      running := false, state := .paused, pauseRequested := false, traceBusy := true } :
        DebugBackend δ).Undisturbed signals count ↔ backend.Undisturbed signals count :=
    fun count => Iff.rfl
  have returns : ∀ bound last, ({ backend with
      running := false, state := .paused, pauseRequested := false, traceBusy := true } :
        DebugBackend δ).ReturnsAt signals bound last ↔ backend.ReturnsAt signals bound last :=
    fun bound last => ⟨fun held => ⟨held.1, held.2, held.3, held.4⟩,
      fun held => ⟨held.1, held.2, held.3, held.4⟩⟩
  have reason : (backend.traceResult (backend.traceFunctionRun signals)).exitReason = .ret ↔
      ∃ pc, (backend.traceFunctionRun signals).ended = some (.ret, pc) := by
    unfold traceResult
    dsimp only
    cases (backend.traceFunctionRun signals).ended with
    | none => exact ⟨nofun, nofun⟩
    | some exit =>
      constructor
      · intro isRet
        exact ⟨exit.2, congrArg some (Prod.ext isRet rfl)⟩
      · rintro ⟨pc, same⟩
        rw [Option.some.inj same]
        rfl
  change (∀ pc, (backend.traceFunctionRun signals).executed.head? = some pc ↔ _) at head
  change (∃ pc, (backend.traceFunctionRun signals).ended = some (.ret, pc)) ↔ _ at ended
  change ∀ last, _ → (backend.traceFunctionRun signals).backend.target = _ at reached
  have outcome : ∀ last,
      backend.ReturnsAt signals traceFunctionParams.maxInstructions.toNat last →
        ((backend.traceResult (backend.traceFunctionRun signals)).exitSp =
            (backend.traceResult (backend.traceFunctionRun signals)).entrySp + 2 ∧
          (backend.traceFunctionRun signals).backend.target.pc =
            backend.target.board.machine.stackTop ↔
        backend.target.stackMoved last = 0 ∧
          (backend.target.steps last).board.machine.stackTop =
            backend.target.board.machine.stackTop) := by
    intro last here
    have target := reached last ((returns _ last).mpr here)
    obtain ⟨sp, pc⟩ := steps_ret backend.target last here.ret
    have exitSp : (backend.traceResult (backend.traceFunctionRun signals)).exitSp =
        backend.target.sp + backend.target.stackMoved last + 2 :=
      (congrArg DebugAdapter.sp target).trans sp
    have exitPc : (backend.traceFunctionRun signals).backend.target.pc =
        (backend.target.steps last).board.machine.stackTop :=
      (congrArg DebugAdapter.pc target).trans pc
    have entrySp : (backend.traceResult (backend.traceFunctionRun signals)).entrySp =
        backend.target.sp := rfl
    rw [exitSp, exitPc, entrySp, add_left_inj, add_eq_left]
  constructor
  · rintro ⟨entry, returned⟩
    refine ⟨fun undisturbed => ?_, fun last here => ?_⟩
    · exact entry _ ((head _).mpr ⟨positive, (calm 1).mpr undisturbed, rfl⟩)
    · exact (outcome last here).mp
        (returned (reason.mpr (ended.mpr ⟨last, (returns _ last).mpr here⟩)))
  · rintro ⟨entry, balanced⟩
    refine ⟨fun pc first => ?_, fun isRet => ?_⟩
    · obtain ⟨-, undisturbed, rfl⟩ := (head pc).mp first
      exact entry ((calm 1).mp undisturbed)
    · obtain ⟨last, here⟩ := ended.mp (reason.mp isRet)
      have here' := (returns _ last).mp here
      exact (outcome last here').mpr (balanced last here')

/-- However a call of `traceFunction` comes to its trace, and whatever pauses are requested while
it runs, it traces the function that it names exactly when the run has stopped there and the
function balances its stack before its first `RET` opcode. The trace is the one that the command
delivers. -/
theorem traceFunction_iff {address : Word} {start : Call δ} {backend : DebugBackend δ}
    (starts : TraceStarts address start backend) :
    (∀ signals, backend.TracesFunction address signals ↔
      backend.EntersAndBalances address signals) ∧
    (backend.traceBusy = false →
      (backend.processCommand
          { command := .executeTrace traceFunctionParams, withdrawn := false }).outcome.trace =
        some (backend.traceResult (backend.traceFunctionRun fun _ => .none))) := by
  obtain ⟨reached, moments, call, paused, later, staying⟩ := starts
  exact ⟨backend.tracesFunction_iff address, backend.processCommand_trace _ staying⟩

/-- The commands of a call of `traceFunction` up to its trace, with a `Pause` of another client
right after the run has begun. -/
def pausedAtOnce (backend : DebugBackend δ) (address : Word) : DebugBackend δ :=
  let take (backend : DebugBackend δ) (command : Command) : DebugBackend δ :=
    (backend.processCommand { command, withdrawn := false }).backend
  take (take (take backend (.addBreakpoint address)) .run) .pause

/-- `CALL 0004h` at address 0, a halt, and a `RET` at address 4. -/
def nestedCall : DebugBackend Unit := init () [0xcd, 0x04, 0x00, 0x76, 0xc9] fun _ => []

theorem nestedCall_starts (address : Word) :
    TraceStarts address { backend := nestedCall, phase := .before }
      (nestedCall.pausedAtOnce address) := by
  refine ⟨{ backend := nestedCall.pausedAtOnce address, phase := .stopped }, _,
    .took (.submitAndWait (.addBreakpoint address)) _ _ rfl rfl rfl
      (.took .requestRunFuture _ _ rfl rfl rfl
        (.loop (.take { command := .pause, withdrawn := false }) _ rfl
          (fun queued same => by cases same; rfl) (.waited (.inl nofun) (.done _)))),
    rfl, .refl _, rfl⟩

/-- A trace of the code at address 0 that an early pause leaves there. -/
theorem traceFunction_iff_nestedCall :
    (nestedCall.pausedAtOnce 0).TracesFunction 0 (fun _ => .none) ↔
      (nestedCall.pausedAtOnce 0).EntersAndBalances 0 fun _ => .none :=
  (traceFunction_iff (nestedCall_starts 0)).1 fun _ => .none

/-- Asked for the code at address 5, the trace is one of address 0; asked for that, it ends with
the `RET` of the function called there. -/
theorem traces_elsewhere :
    (TraceStarts 5 { backend := nestedCall, phase := .before } (nestedCall.pausedAtOnce 5) ∧
      ¬ (nestedCall.pausedAtOnce 5).TracesFunction 5 fun _ => .none) ∧
    TraceStarts 0 { backend := nestedCall, phase := .before } (nestedCall.pausedAtOnce 0) ∧
      ¬ (nestedCall.pausedAtOnce 0).TracesFunction 0 fun _ => .none := by
  refine ⟨⟨nestedCall_starts 5, fun traces => ?_⟩, nestedCall_starts 0, fun traces => ?_⟩
  · have whole := (tracesFunction_iff _ _ _).mp traces
    have here := whole.entry ⟨rfl, rfl, fun _ _ => ⟨rfl, rfl⟩⟩
    exact absurd here (by decide)
  · have whole := (tracesFunction_iff _ _ _).mp traces
    have returns : (nestedCall.pausedAtOnce 0).ReturnsAt (fun _ => .none)
        traceFunctionParams.maxInstructions.toNat 1 := by
      refine
        ⟨by decide, ⟨rfl, rfl, fun _ _ => ⟨rfl, rfl⟩⟩, by decide +kernel, fun index below => ?_⟩
      rw [Nat.lt_one_iff.mp below]
      exact ⟨by decide, by decide⟩
    exact absurd (whole.balanced 1 returns).1 (by decide)

end DebugBackend

end VectorDebugger

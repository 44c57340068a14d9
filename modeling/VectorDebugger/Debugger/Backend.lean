import VectorDebugger.Debugger.Annotations
import VectorDebugger.Debugger.DebugAdapter
import VectorDebugger.Debugger.Instrumentation

/-!
# The debugger backend

`DebugBackend` owns the run state, the breakpoints and the annotations, and executes commands
on the emulation thread. Other threads only raise flags and enqueue commands: `Signals` are the
flags raised between two steps of the emulation thread, and a schedule gives the commands that
it dequeues. The promises through which results travel are the subject of `Commands`.
-/

namespace VectorDebugger

/-- `DebuggerState`. -/
inductive DebuggerState
  | paused | running
deriving DecidableEq, Repr

/-- `StopReason`. -/
inductive StopReason
  | none | breakpoint | userPause | step | reset | skip
deriving DecidableEq, Repr

/-- `ExitReason`. -/
inductive ExitReason
  | ret | callerReturn | timeout | breakpoint | halt | unknown
deriving DecidableEq, Repr

/-- `CommandResult::Status`. -/
inductive CommandStatus
  | completed | failed | timeout | cancelled
deriving DecidableEq, Repr

/-- `CommandResult`. -/
structure CommandResult where
  /-- `success`. -/
  success : Bool
  /-- `error`. -/
  error : Text
  /-- `status`. -/
  status : CommandStatus
deriving DecidableEq, Repr

namespace CommandResult

/-- A command that did what it was asked to. -/
def completed : CommandResult := { success := true, error := [], status := .completed }

/-- A command that failed. -/
def failed (error : Text) : CommandResult := { success := false, error, status := .failed }

/-- A command that was not executed. -/
def cancelled (error : Text) : CommandResult := { success := false, error, status := .cancelled }

/-- `ok ? completed : failed`. -/
def check (ok : Bool) (error : Text) : CommandResult := if ok then completed else failed error

end CommandResult

/-- `TraceExecutionParams`. -/
structure TraceExecutionParams where
  /-- `maxInstructions`. -/
  maxInstructions : BitVec 32
  /-- `stopOnRet`. -/
  stopOnRet : Bool
  /-- `stopOnCallerReturn`. -/
  stopOnCallerReturn : Bool
  /-- `callerReturnAddress` — zero when there is none. -/
  callerReturnAddress : Word
deriving DecidableEq, Repr

/-- `TraceExecutionParams` as declared. -/
def TraceExecutionParams.default : TraceExecutionParams where
  maxInstructions := 10000
  stopOnRet := true
  stopOnCallerReturn := true
  callerReturnAddress := 0

/-- `TraceExecutionResult`. -/
structure TraceExecutionResult where
  /-- `startSequence`. -/
  startSequence : Nat
  /-- `endSequence`. -/
  endSequence : Nat
  /-- `instructionsExecuted`. -/
  instructionsExecuted : BitVec 32
  /-- `exitPc`. -/
  exitPc : Word
  /-- `entrySp`. -/
  entrySp : Word
  /-- `exitSp`. -/
  exitSp : Word
  /-- `minSp`. -/
  minSp : Word
  /-- `maxSp`. -/
  maxSp : Word
  /-- `exitReason`. -/
  exitReason : ExitReason
deriving DecidableEq, Repr

/-- `TraceExecutionResult` as declared. -/
def TraceExecutionResult.default : TraceExecutionResult where
  startSequence := 0
  endSequence := 0
  instructionsExecuted := 0
  exitPc := 0
  entrySp := 0
  exitSp := 0
  minSp := 0
  maxSp := 0
  exitReason := .unknown

/-- `Command`, with the parameters that its type uses. -/
inductive Command
  | run
  | pause
  | step
  | reset
  | restart
  | quit
  | loadRom (name : Text) (org : Nat)
  | memoryWrite (address : Word) (writeData : List Byte)
  | registerWrite (regId : RegisterId) (regValue : Word)
  | addBreakpoint (address : Word)
  | removeBreakpoint (address : Word)
  | setBreakpointEnabled (address : Word) (enabled : Bool)
  | clearBreakpoints
  | createFunction (address : Word) (name : Text)
  | renameSymbol (address : Word) (name : Text)
  | setComment (address : Word) (comment : Text)
  | removeSymbol (address : Word)
  | addLabel (address : Word) (name : Text)
  | executeTrace (traceParams : TraceExecutionParams)
  | ioWrite (address : Word) (ioValue : Byte)
deriving DecidableEq, Repr

/-- A command taken from the queue. -/
structure QueuedCommand where
  /-- What to do. -/
  command : Command
  /-- Its submitter has moved `state` from `Queued` to `Cancelled`. -/
  withdrawn : Bool
deriving DecidableEq, Repr

/-- The flags that other threads raise. -/
structure Signals where
  /-- `requestQuit` sets `quitRequested_`. -/
  quit : Bool
  /-- `requestPause` sets `breakRequested_`. -/
  brk : Bool
  /-- `requestPause` sets `pauseRequestedAtomic_`. -/
  pause : Bool
deriving DecidableEq, Repr

/-- No flag. -/
def Signals.none : Signals := { quit := false, brk := false, pause := false }

/-- `DebugBackend::requestPause`. -/
def Signals.requestPause : Signals := { quit := false, brk := true, pause := true }

/-- `DebugBackend`. -/
structure DebugBackend (δ : Type) where
  /-- `target_`. -/
  target : DebugAdapter δ
  /-- What the memory and input/output hooks keep. -/
  instrumentation : Instrumentation
  /-- `breakpoints_` — in the order of their ids. -/
  breakpoints : List (Nat × DebuggerBreakpoint)
  /-- `nextId_`. -/
  nextId : Nat
  /-- `state_`. -/
  state : DebuggerState
  /-- `stopReason_`. -/
  stopReason : StopReason
  /-- `pauseRequestedAtomic_`. -/
  pauseRequested : Bool
  /-- `breakRequested_`. -/
  breakRequested : Bool
  /-- `quitRequested_`. -/
  quitRequested : Bool
  /-- `running_`. -/
  running : Bool
  /-- `skipBreakpoint_`. -/
  skipBreakpoint : Bool
  /-- `traceBusy_`. -/
  traceBusy : Bool
  /-- `lastPc_`. -/
  lastPc : Word
  /-- `symbols_`. -/
  symbols : SymbolDatabase
  /-- `rdb_`. -/
  rdb : RdbController

/-- What a command delivers. -/
structure Outcome where
  /-- The value of `promise`. -/
  result : CommandResult
  /-- The value of `tracePromise`, for `ExecuteTrace`. -/
  trace : Option TraceExecutionResult
deriving DecidableEq, Repr

namespace DebugBackend

variable {δ : Type}

/-- `DebugBackend::DebugBackend` over a new adapter. -/
def init (chips : δ) (boot : List Byte) (files : Text → List Byte) : DebugBackend δ where
  target := { board := Board.powerOn chips boot, syncedBreakpoints := [], files }
  instrumentation := .init
  breakpoints := []
  nextId := 1
  state := .paused
  stopReason := .none
  pauseRequested := false
  breakRequested := false
  quitRequested := false
  running := false
  skipBreakpoint := false
  traceBusy := false
  lastPc := 0
  symbols := .empty
  rdb := .empty

/-- Other threads raise flags. -/
def raise (backend : DebugBackend δ) (signals : Signals) : DebugBackend δ :=
  { backend with
    quitRequested := backend.quitRequested || signals.quit
    breakRequested := backend.breakRequested || signals.brk
    pauseRequested := backend.pauseRequested || signals.pause }

/-! ### Breakpoints -/

/-- `findBreakpointByAddress`. -/
def findBreakpointByAddress (backend : DebugBackend δ) (address : Word) :
    Option (Nat × DebuggerBreakpoint) :=
  backend.breakpoints.find? (·.2.address = address)

/-- `DebugBackend::addBreakpoint`, with whether it returned an id. -/
def addBreakpoint (backend : DebugBackend δ) (address : Word) : DebugBackend δ × Bool :=
  if (backend.findBreakpointByAddress address).isSome then (backend, false)
  else
    ({ backend with
        nextId := backend.nextId + 1
        breakpoints := backend.breakpoints ++ [(backend.nextId, { address, enabled := true })] },
      true)

/-- `DebugBackend::removeBreakpoint`. -/
def removeBreakpoint (backend : DebugBackend δ) (address : Word) : DebugBackend δ × Bool :=
  match backend.findBreakpointByAddress address with
  | none => (backend, false)
  | some found =>
    ({ backend with breakpoints := backend.breakpoints.filter (·.1 ≠ found.1) }, true)

/-- `DebugBackend::setBreakpointEnabled`. -/
def setBreakpointEnabled (backend : DebugBackend δ) (address : Word) (enabled : Bool) :
    DebugBackend δ × Bool :=
  match backend.findBreakpointByAddress address with
  | none => (backend, false)
  | some found =>
    ({ backend with
        breakpoints := backend.breakpoints.map fun entry =>
          if entry.1 = found.1 then (entry.1, { entry.2 with enabled }) else entry }, true)

/-- `DebugBackend::clearBreakpoints`. -/
def clearBreakpoints (backend : DebugBackend δ) : DebugBackend δ :=
  { backend with breakpoints := [] }

/-- `DebugBackend::checkBreakpoint`. -/
def checkBreakpoint (backend : DebugBackend δ) : Bool :=
  backend.breakpoints.any fun entry => entry.2.enabled && entry.2.address == backend.target.pc

/-- `DebugBackend::syncBreakpointsToTarget`. -/
def syncBreakpointsToTarget (backend : DebugBackend δ) : DebugBackend δ :=
  { backend with
    target := backend.target.syncBreakpoints
      ((backend.breakpoints.map (·.2)).filter (·.enabled)) }

/-! ### Execution -/

variable [Chips δ]

/-- `DebugBackend::stepInstruction`. -/
def stepInstruction (backend : DebugBackend δ) : DebugBackend δ :=
  { backend with
    target := backend.target.stepInstruction
    instrumentation := backend.instrumentation.stepInstructionDetailed backend.target.board.machine
    lastPc := backend.target.pc
    stopReason := .step }

/-- `DebugAdapter::executeFrame` after the poll callback, as the hooks see it, with the board
at each instruction it executed. -/
def executeFrame (backend : DebugBackend δ) : List (Board δ) × DebugBackend δ :=
  let executed := backend.target.executeFrame
  (executed.1,
    { backend with
      target := executed.2
      instrumentation := backend.instrumentation.observeAll
        (backend.target.board.frameEvents true) })

/-- What `DebugBackend::reset` and `DebugBackend::restart` do; they differ in the boot
overlay. -/
def resetTarget (backend : DebugBackend δ) (attachBoot : Bool) : DebugBackend δ :=
  { backend with
    target := backend.target.reset attachBoot
    state := .paused
    pauseRequested := false
    stopReason := .reset
    instrumentation := backend.instrumentation.reset }

/-- `DebugBackend::reset`. -/
def reset (backend : DebugBackend δ) : DebugBackend δ := backend.resetTarget true

/-- `DebugBackend::restart`. -/
def restart (backend : DebugBackend δ) : DebugBackend δ := backend.resetTarget false

/-- The exit condition that `executeTraceInternal` finds after an instruction with the given
opcode. -/
def exitCondition (params : TraceExecutionParams) (opcode : Byte) (pcAfter : Word) :
    Option ExitReason :=
  if params.stopOnRet && opcode == 0xc9 then some .ret
  else if opcode == 0x76 then some .halt
  else if params.stopOnCallerReturn && params.callerReturnAddress != 0 &&
      pcAfter == params.callerReturnAddress then some .callerReturn
  else none

/-- The loop of `executeTraceInternal`, while no other thread raises a flag: the stack bounds
and, when an exit condition or a flag ended it, the reason with the program counter. -/
def traceLoop (params : TraceExecutionParams) :
    Nat → DebugBackend δ → Word × Word → DebugBackend δ × (Word × Word) × Option (ExitReason × Word)
  | 0, backend, bounds => (backend, bounds, none)
  | left + 1, backend, bounds =>
    if backend.breakRequested || backend.quitRequested then
      (backend, bounds, some (.timeout, backend.target.pc))
    else
      let pc := backend.target.pc
      let opcode := backend.target.peekMemory pc
      let stepped := backend.stepInstruction
      let newSp := stepped.target.sp
      let bounds' := (if newSp < bounds.1 then newSp else bounds.1,
        if newSp > bounds.2 then newSp else bounds.2)
      match exitCondition params opcode stepped.target.pc with
      | some reason => (stepped, bounds', some (reason, pc))
      | none => traceLoop params left stepped bounds'

/-- `DebugBackend::executeTraceInternal`. -/
def executeTraceInternal (backend : DebugBackend δ) (params : TraceExecutionParams) :
    DebugBackend δ × TraceExecutionResult :=
  let entrySp := backend.target.sp
  let (done, bounds, ended) :=
    traceLoop params params.maxInstructions.toNat backend (entrySp, entrySp)
  let (exitReason, exitPc) := ended.getD (.timeout, done.target.pc)
  let startSequence := backend.instrumentation.instructionSequence
  let endSequence := done.instrumentation.instructionSequence
  (done,
    { startSequence, endSequence
      instructionsExecuted := BitVec.ofNat 32 (endSequence - startSequence)
      exitPc, entrySp, exitSp := done.target.sp, minSp := bounds.1, maxSp := bounds.2
      exitReason })

/-! ### Commands -/

/-- A new object for a symbol, as `executeCommand` builds it. -/
def rdbObject (address : Word) (type : RdbObjectType) (name : Text) : RdbObject where
  address := address
  type := type
  name := name
  size := 0
  hasSize := false
  comment := []
  properties := []
  links := []

/-- `CreateFunction` and `AddLabel`: a symbol, and an object for it when there was none. -/
def createSymbol (backend : DebugBackend δ) (address : Word) (name : Text) (symbolType : SymbolType)
    (objectType : RdbObjectType) : DebugBackend δ × CommandResult :=
  let added := backend.symbols.addSymbol address name symbolType
  let rdb :=
    if added.2 then (backend.rdb.addObject (rdbObject address objectType name)).1
    else backend.rdb
  ({ backend with symbols := added.1, rdb },
    .check added.2 (ascii "symbol already exists at this address"))

/-- `RenameSymbol`. -/
def renameSymbol (backend : DebugBackend δ) (address : Word) (name : Text) :
    DebugBackend δ × CommandResult :=
  let renamed := backend.symbols.renameSymbol address name
  let rdb :=
    if renamed.2 then
      match backend.rdb.getObject address with
      | some existing => (backend.rdb.updateObject { existing with name }).1
      | none => backend.rdb
    else backend.rdb
  ({ backend with symbols := renamed.1, rdb }, .check renamed.2 (ascii "symbol not found"))

/-- `SetComment`. -/
def setComment (backend : DebugBackend δ) (address : Word) (comment : Text) :
    DebugBackend δ × CommandResult :=
  let noted := backend.symbols.setComment address comment
  let rdb := if noted.2 then (backend.rdb.setComment address comment).1 else backend.rdb
  ({ backend with symbols := noted.1, rdb }, .check noted.2 (ascii "symbol not found"))

/-- `RemoveSymbol`. -/
def removeSymbol (backend : DebugBackend δ) (address : Word) : DebugBackend δ × CommandResult :=
  let removed := backend.symbols.removeSymbol address
  ({ backend with symbols := removed.1 }, .check removed.2 (ascii "symbol not found"))

/-- `MemoryWrite` in the paused state. -/
def writeMemory (backend : DebugBackend δ) (address : Word) (writeData : List Byte) :
    DebugBackend δ :=
  writeData.zipIdx.foldl (fun backend entry =>
    let written := backend.target.writeMemory (address + BitVec.ofNat 16 entry.2) entry.1
    { backend with
      target := written.1
      instrumentation := backend.instrumentation.observeAll written.2 }) backend

/-- `Run`. -/
def beginRun (backend : DebugBackend δ) : DebugBackend δ :=
  { backend with
    running := true
    state := .running
    pauseRequested := false
    skipBreakpoint := backend.checkBreakpoint }

/-- A command that only works while the debugger is paused. -/
def whenPaused (backend : DebugBackend δ) (error : Text) (done : DebugBackend δ) :
    DebugBackend δ × CommandResult :=
  if backend.state = .paused then (done, .completed) else (backend, .failed error)

/-- `DebugBackend::executeCommand`. -/
def executeCommand (backend : DebugBackend δ) (command : Command) : DebugBackend δ × Outcome :=
  let plain (done : DebugBackend δ × CommandResult) : DebugBackend δ × Outcome :=
    (done.1, { result := done.2, trace := none })
  match command with
  | .addBreakpoint address =>
    let added := backend.addBreakpoint address
    plain (added.1.syncBreakpointsToTarget,
      .check added.2 (ascii "breakpoint already exists at this address"))
  | .removeBreakpoint address =>
    let removed := backend.removeBreakpoint address
    plain (removed.1.syncBreakpointsToTarget,
      .check removed.2 (ascii "no breakpoint at this address"))
  | .setBreakpointEnabled address enabled =>
    let set := backend.setBreakpointEnabled address enabled
    plain (set.1.syncBreakpointsToTarget, .check set.2 (ascii "no breakpoint at this address"))
  | .clearBreakpoints => plain (backend.clearBreakpoints.syncBreakpointsToTarget, .completed)
  | .createFunction address name => plain (backend.createSymbol address name .function .function)
  | .renameSymbol address name => plain (backend.renameSymbol address name)
  | .setComment address comment => plain (backend.setComment address comment)
  | .removeSymbol address => plain (backend.removeSymbol address)
  | .addLabel address name => plain (backend.createSymbol address name .label .label)
  | .step => plain (backend.stepInstruction, .completed)
  | .reset => plain ({ backend with running := false }.reset, .completed)
  | .restart => plain ({ backend with running := false }.restart, .completed)
  | .loadRom name org =>
    let loaded := backend.target.loadRom name org
    plain ({ backend with running := false, target := loaded.1 },
      .check loaded.2 (ascii "failed to load ROM: " ++ name))
  | .memoryWrite address writeData =>
    plain (backend.whenPaused (ascii "cannot write memory while running")
      (backend.writeMemory address writeData))
  | .registerWrite regId regValue =>
    plain (backend.whenPaused (ascii "cannot write register while running")
      { backend with target := backend.target.writeCpuRegister regId regValue })
  | .executeTrace params =>
    if backend.traceBusy then
      (backend, { result := .failed (ascii "trace busy"), trace := some .default })
    else
      let traced := { backend with traceBusy := true }.executeTraceInternal params
      ({ traced.1 with traceBusy := false }, { result := .completed, trace := some traced.2 })
  | .run => plain (backend.beginRun, .completed)
  | .pause | .quit => plain (backend, .completed)
  | .ioWrite address ioValue =>
    plain (backend.whenPaused (ascii "cannot write I/O port while running")
      { backend with target := backend.target.writeIoPort address.low ioValue })

/-- What `DebugBackend::processCommand` leaves. -/
structure Processed (δ : Type) where
  /-- The backend. -/
  backend : DebugBackend δ
  /-- What the command delivers. -/
  outcome : Outcome
  /-- The return value: the frame loop goes on with the next command. -/
  goesOn : Bool

/-- `DebugBackend::processCommand`. The `cancelled` flag of a command is never set, so its test
is left out. -/
def processCommand (backend : DebugBackend δ) (queued : QueuedCommand) : Processed δ :=
  if queued.withdrawn then
    { backend, outcome := { result := .cancelled (ascii "cancelled"), trace := none }
      goesOn := true }
  else if backend.quitRequested && queued.command != .quit then
    { backend, outcome := { result := .cancelled (ascii "quit requested"), trace := none }
      goesOn := false }
  else
    match queued.command with
    | .quit =>
      { backend := { backend with quitRequested := true, running := false, state := .paused }
        outcome := { result := .completed, trace := none }, goesOn := false }
    | .pause =>
      { backend :=
          { backend with
            running := false, state := .paused, stopReason := .userPause
            pauseRequested := false }
        outcome := { result := .completed, trace := none }, goesOn := false }
    | .executeTrace params =>
      -- a trace needs the processor to stand still
      let paused :=
        { backend with running := false, state := .paused, pauseRequested := false }
      let done := paused.executeCommand (.executeTrace params)
      { backend := done.1, outcome := done.2, goesOn := true }
    | command =>
      let done := backend.executeCommand command
      { backend := done.1, outcome := done.2, goesOn := true }

/-! ### The emulation loop -/

/-- The poll callback that `runUntilPause` installs. -/
def poll (backend : DebugBackend δ) : DebugBackend δ :=
  if backend.quitRequested then { backend with target := backend.target.debuggerBreak }
  else if backend.breakRequested then
    { backend with breakRequested := false, target := backend.target.debuggerBreak }
  else if backend.pauseRequested || !backend.running then
    { backend with pauseRequested := true, target := backend.target.debuggerBreak }
  else backend

/-- The board is released for a frame, and the poll callback may hold it again. -/
def enterFrame (backend : DebugBackend δ) (signals : Signals) : DebugBackend δ :=
  ({ backend with target := backend.target.debuggerContinue }.raise signals).poll

/-- What other threads do during one pass of the frame loop. -/
structure FrameInput where
  /-- Flags raised before the test of `quitRequested_`. -/
  before : Signals
  /-- Flags raised before the poll callback. -/
  atPoll : Signals
  /-- The commands in the queue after the frame, each with the flags raised before it. -/
  commands : List (Signals × QueuedCommand)
  /-- Flags raised before the tests that follow. -/
  after : Signals

/-- What one pass of the frame loop did, for statements about it. -/
structure PassRecord (δ : Type) where
  /-- The state when the frame starts. -/
  entered : DebugBackend δ
  /-- The board at each instruction of the frame. -/
  executed : List (Board δ)
  /-- The state when the frame is over, before any command. -/
  left : DebugBackend δ
  /-- The state in which the pass stopped the loop on a breakpoint. -/
  stopped : Option (DebugBackend δ)

/-- A run of the frame loop. -/
structure FramesRun (δ : Type) where
  /-- The state of the step over a breakpoint, when there is one. -/
  skipped : Option (DebugBackend δ)
  /-- The passes, in order. -/
  passes : List (PassRecord δ)
  /-- The state reached. -/
  backend : DebugBackend δ
  /-- The loop has returned; otherwise the run is one that goes on. -/
  finished : Bool

/-- A run of the main loop. -/
structure MainRun (δ : Type) where
  /-- The runs of the frame loop, in order. -/
  runs : List (FramesRun δ)
  /-- The state reached. -/
  backend : DebugBackend δ
  /-- The loop has returned; otherwise the run is one that goes on. -/
  finished : Bool

/-- `while (auto cmd = commandQueue_.tryDequeue())` in the frame loop. -/
def drainCommands : DebugBackend δ → List (Signals × QueuedCommand) → DebugBackend δ
  | backend, [] => backend
  | backend, (signals, queued) :: rest =>
    let processed := (backend.raise signals).processCommand queued
    if processed.goesOn then processed.backend.drainCommands rest else processed.backend

/-- The end of `executeFramesTarget_`. -/
def leaveFrames (backend : DebugBackend δ) : FramesRun δ where
  skipped := none
  passes := []
  backend := { backend with state := .paused }
  finished := true

/-- A stop on a breakpoint, before the end of `executeFramesTarget_`. -/
def stopOnBreakpoint (backend : DebugBackend δ) : DebugBackend δ :=
  { backend with stopReason := .breakpoint, running := false }

/-- A stop because of a pause request, or because a command cleared `running_`. -/
def stopOnPause (backend : DebugBackend δ) : DebugBackend δ :=
  { backend with
    running := false, stopReason := .userPause, state := .paused, pauseRequested := false }

/-- The `while` loop of `executeFramesTarget_`, one input for each pass. -/
def frames : List FrameInput → DebugBackend δ → FramesRun δ
  | [], backend =>
    if backend.running then { skipped := none, passes := [], backend, finished := false }
    else backend.leaveFrames
  | input :: inputs, backend =>
    if !backend.running then backend.leaveFrames
    else
      let entered := backend.raise input.before
      if entered.quitRequested then
        { skipped := none, passes := [], finished := true
          backend := { entered with target := entered.target.debuggerBreak.debuggerDetached } }
      else
        let polled := entered.enterFrame input.atPoll
        let executed := polled.executeFrame
        let settled := (executed.2.drainCommands input.commands).raise input.after
        let stuck := executed.2.target.pc == entered.target.pc && !settled.quitRequested
        let pausing := settled.pauseRequested || !settled.running
        let stops := settled.checkBreakpoint && (stuck || !pausing)
        let rest :=
          if stops then settled.stopOnBreakpoint.leaveFrames
          else if pausing then settled.stopOnPause.leaveFrames
          else frames inputs settled
        let pass : PassRecord δ :=
          { entered := polled, executed := executed.1, left := executed.2
            stopped := if stops then some settled.stopOnBreakpoint else none }
        { rest with passes := pass :: rest.passes }

/-- `DebugBackend::executeFramesTarget_`. -/
def executeFramesTarget (backend : DebugBackend δ) (inputs : List FrameInput) : FramesRun δ :=
  let synced := backend.syncBreakpointsToTarget
  if synced.skipBreakpoint && synced.checkBreakpoint then
    { frames inputs { synced with skipBreakpoint := false }.stepInstruction with
      skipped := some synced }
  else frames inputs synced

/-- What other threads do during one pass of the main loop. -/
structure MainInput where
  /-- The passes of the frame loop, when it is entered. -/
  frames : List FrameInput
  /-- Flags raised before the test of `quitRequested_`. -/
  before : Signals
  /-- The command that `waitAndDequeue` returns, with the flags raised before it. -/
  command : Signals × QueuedCommand

/-- The loop of `DebugBackend::runUntilPause`, one input for each pass. -/
def mainLoop : List MainInput → DebugBackend δ → MainRun δ
  | [], backend => { runs := [], backend, finished := false }
  | input :: inputs, backend =>
    let ran : FramesRun δ :=
      if backend.running then backend.executeFramesTarget input.frames
      else { skipped := none, passes := [], backend, finished := true }
    if !ran.finished then { runs := [ran], backend := ran.backend, finished := false }
    else
      let entered := ran.backend.raise input.before
      if entered.quitRequested then
        { runs := [ran], finished := true
          backend :=
            { entered with state := .paused, target := entered.target.debuggerDetached } }
      else
        let processed := (entered.raise input.command.1).processCommand input.command.2
        let rest := mainLoop inputs processed.backend
        { rest with runs := ran :: rest.runs }

/-- `DebugBackend::runUntilPause`. -/
def runUntilPause (backend : DebugBackend δ) (inputs : List MainInput) : MainRun δ :=
  mainLoop inputs { backend with target := backend.target.debuggerAttached }

end DebugBackend

end VectorDebugger

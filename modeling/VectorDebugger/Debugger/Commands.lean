import Mathlib.Logic.Function.Basic
import VectorDebugger.Debugger.Backend
import VectorDebugger.Library.Transition

/-!
# The command queue

`DebugBackend` as threads. Clients make commands, put them in the queue and wait for their
promises; the emulation thread, in `runUntilPause`, takes them out. A `compare_exchange` on the
state of a command decides between its execution and its withdrawal by a submitter that has waited
for too long. One action is one access to something the threads share, so that the runs of `step`
are the interleavings of all threads. What a command does to the machine is `executeCommand` of the
backend; here only the flags that steer the loop are kept.

A command lives at an address of the heap until the emulation thread destroys it. Its submitter
keeps that address as `rawCmd`, and another command may be made there later.
-/

namespace VectorDebugger.Commands

/-- `CommandState`. -/
inductive CommandState
  | queued | executing | cancelled | completed
deriving DecidableEq, Repr

/-- What a result promise is given. -/
inductive Answer
  /-- The result of the execution. -/
  | executed
  /-- `"quit requested"`, from `processCommand`. -/
  | refused
  /-- `"cancelled"`, for a command that its submitter had withdrawn. -/
  | cancelled
  /-- `"quit"`, from the final drain. -/
  | drained
deriving DecidableEq, Repr

/-- The calls that make a command and put it in the queue. -/
inductive Request
  /-- `submitAndWait`, for all commands but those below. -/
  | submitAndWait (command : Command)
  /-- `requestRunFuture`. -/
  | requestRunFuture
  /-- `requestExecuteTrace`. -/
  | requestExecuteTrace (params : TraceExecutionParams)
  /-- `requestQuit`. -/
  | requestQuit
deriving DecidableEq, Repr

namespace Request

/-- The command made. -/
def command : Request → Command
  | submitAndWait command => command
  | requestRunFuture => .run
  | requestExecuteTrace params => .executeTrace params
  | requestQuit => .quit

/-- The command carries a `pausePromise`. -/
def carriesPause : Request → Bool
  | requestRunFuture => true
  | _ => false

/-- The command carries a `tracePromise`. -/
def carriesTrace : Request → Bool
  | requestExecuteTrace _ => true
  | _ => false

/-- The submitter waits with a time limit. -/
def timesOut : Request → Bool
  | submitAndWait _ => true
  | _ => false

end Request

/-- Where the thread that submits a command stands. -/
inductive Submitter
  /-- There is no such command yet. -/
  | absent
  /-- The command is made, and not yet in the queue. -/
  | created
  /-- In `future.wait_for`, or in `future.wait`. -/
  | waiting
  /-- `wait_for` has timed out; the state of the command is loaded next. -/
  | timedOut
  /-- The state was not `Executing`; the `compare_exchange` is next. -/
  | cancelling
  /-- In `future.get`. -/
  | blocked
  /-- Returned with an answer, or with `Timeout`. -/
  | returned (answer : Option Answer)
deriving DecidableEq, Repr

/-- One command, with its submitter and with what has happened to it. -/
structure Entry where
  /-- The call that made it. -/
  request : Request
  /-- `rawCmd`. -/
  address : Nat
  /-- Its submitter. -/
  submitter : Submitter
  /-- What `promise` was given, in order. -/
  results : List Answer
  /-- How often `pausePromise` was fulfilled. -/
  pauses : Nat
  /-- How often `tracePromise` was fulfilled. -/
  traces : Nat
  /-- How often it was executed. -/
  executions : Nat
  /-- How often its state went from `Queued` to `Executing`. -/
  starts : Nat
  /-- How often its state went from `Queued` to `Cancelled`. -/
  cancels : Nat

/-- No command. -/
def Entry.vacant : Entry where
  request := .requestQuit
  address := 0
  submitter := .absent
  results := []
  pauses := 0
  traces := 0
  executions := 0
  starts := 0
  cancels := 0

/-- The `state` member of a command at some address. Memory that is free keeps what was there. -/
structure Cell where
  /-- The value in memory. -/
  state : CommandState
  /-- The command that lives here. -/
  owner : Option Nat

/-- What the emulation thread does with the command it holds. -/
inductive Op
  /-- `executeCommand`, or what `processCommand` does itself for `Quit` and `Pause`. -/
  | execute
  /-- `promise.set_value`. -/
  | answer (answer : Answer)
  /-- `state.store(Completed)`. -/
  | complete
  /-- `pausePromise->set_value`. -/
  | fulfilPause
  /-- `tracePromise->set_value`. -/
  | fulfilTrace
  /-- `pendingPausePromises_.push_back(pausePromise)`. -/
  | pushPending
  /-- `running_.store`. -/
  | setRunning (on : Bool)
  /-- `state_` becomes `Paused`, or `Running`. -/
  | setPaused (on : Bool)
  /-- `quitRequested_.store(true)`. -/
  | raiseQuit
  /-- `fulfillPausePromises_`. -/
  | fulfilPending
  /-- The same, if `state_` is `Paused`. -/
  | fulfilPendingIfPaused
deriving DecidableEq, Repr

/-- Points of the loops of `runUntilPause` between two commands. -/
inductive Point
  /-- The test of `running_` in `runUntilPause`. -/
  | top
  /-- The test of `running_` in `executeFramesTarget_`. -/
  | frameHead
  /-- The test of `quitRequested_` in `executeFramesTarget_`. -/
  | frameQuit
  /-- `tryDequeue` after a frame. -/
  | frameQueue
  /-- The tests after the commands of a frame. -/
  | afterFrame
  /-- The test of `quitRequested_` in `runUntilPause`. -/
  | checkQuit
  /-- `waitAndDequeue`. -/
  | wait
  /-- `tryDequeue` in the final drain. -/
  | drain
  /-- `runUntilPause` has returned. -/
  | returned
deriving DecidableEq, Repr

/-- Where the emulation thread stands. -/
inductive Control
  /-- Between two commands. -/
  | at (point : Point)
  /-- At the `compare_exchange` of `processCommand`. -/
  | taken (id : Nat) (inFrame : Bool)
  /-- At the test of `quitRequested_` in `processCommand`. -/
  | examined (id : Nat) (inFrame : Bool)
  /-- At the `compare_exchange` of the final drain. -/
  | draining (id : Nat)
  /-- At the first of the operations, on the command it holds, if any. -/
  | performing (current : Option Nat) (ops : List Op) (next : Point)
deriving DecidableEq, Repr

/-- All threads. -/
structure System where
  /-- The commands by number. -/
  entries : Nat → Entry
  /-- The `state` members by address. -/
  memory : Nat → Cell
  /-- `commandQueue_`. -/
  queue : List Nat
  /-- The commands ever enqueued, in order. -/
  history : List Nat
  /-- The commands executed, in order. -/
  executed : List Nat
  /-- `pendingPausePromises_`. -/
  pending : List Nat
  /-- `running_`. -/
  running : Bool
  /-- `state_` is `Paused`. -/
  paused : Bool
  /-- `quitRequested_`. -/
  quitRequested : Bool
  /-- The emulation thread. -/
  control : Control

/-- Before any command; `running_` may have been set already. -/
def System.init (running : Bool) : System where
  entries := fun _ => .vacant
  memory := fun _ => { state := .completed, owner := none }
  queue := []
  history := []
  executed := []
  pending := []
  running := running
  paused := !running
  quitRequested := false
  control := .at .top

/-! ### What the emulation thread does with a command -/

/-- `processCommand` after a lost `compare_exchange`. -/
def withdrawn : List Op := [.answer .cancelled]

/-- `processCommand` after a quit request. -/
def refusal : List Op := [.complete, .answer .refused]

/-- `processCommand` otherwise, with `executeCommand`. -/
def program (request : Request) : List Op :=
  match request.command with
  | .quit =>
    [.execute, .raiseQuit, .setRunning false, .setPaused true, .complete, .answer .executed,
      .fulfilPending]
  | .pause =>
    [.execute, .setRunning false, .setPaused true, .complete, .answer .executed, .fulfilPending]
  | .executeTrace _ =>
    [.setRunning false, .setPaused true, .execute] ++
      (if request.carriesTrace then [.fulfilTrace] else []) ++
      [.answer .executed, .complete, .fulfilPendingIfPaused]
  | .run =>
    .execute :: (if request.carriesPause then [.pushPending] else []) ++
      [.setRunning true, .setPaused false, .answer .executed, .complete, .fulfilPendingIfPaused]
  | .reset | .restart =>
    [.execute, .setRunning false, .setPaused true, .answer .executed, .complete,
      .fulfilPendingIfPaused]
  | .loadRom .. =>
    [.execute, .setRunning false, .answer .executed, .complete, .fulfilPendingIfPaused]
  | _ => [.execute, .answer .executed, .complete, .fulfilPendingIfPaused]

/-- What `processCommand` returns after `program`. -/
def goesOn (request : Request) : Bool :=
  match request.command with
  | .quit | .pause => false
  | _ => true

/-- The final drain after a won `compare_exchange`. -/
def drainProgram (request : Request) : List Op :=
  (if request.carriesPause then [.fulfilPause] else []) ++ [.answer .drained]

/-- The end of `executeFramesTarget_` after its loop was left at the test of `running_`. -/
def leaveFrames : List Op := [.setPaused true, .fulfilPending]

/-- The end of `executeFramesTarget_` after a stop. -/
def stopFrames : List Op := .setRunning false :: leaveFrames

namespace System

/-- Change one command. -/
def modify (s : System) (id : Nat) (change : Entry → Entry) : System :=
  { s with entries := Function.update s.entries id (change (s.entries id)) }

/-- Store a command's state. -/
def store (s : System) (address : Nat) (state : CommandState) : System :=
  { s with
    memory := Function.update s.memory address { s.memory address with state } }

/-- `fulfillPausePromises_`. -/
def fulfillPausePromises (s : System) : System :=
  { s with
    entries := fun id =>
      { s.entries id with pauses := (s.entries id).pauses + s.pending.count id }
    pending := [] }

/-- One operation on the command `id`. -/
def performOn (s : System) (id : Nat) : Op → System
  | .execute =>
    { s with executed := s.executed ++ [id] }.modify id fun entry =>
      { entry with executions := entry.executions + 1 }
  | .answer answer =>
    s.modify id fun entry => { entry with results := entry.results ++ [answer] }
  | .complete => s.store (s.entries id).address .completed
  | .fulfilPause => s.modify id fun entry => { entry with pauses := entry.pauses + 1 }
  | .fulfilTrace => s.modify id fun entry => { entry with traces := entry.traces + 1 }
  | .pushPending => { s with pending := s.pending ++ [id] }
  | _ => s

/-- One operation. -/
def perform (s : System) (current : Option Nat) : Op → System
  | .setRunning on => { s with running := on }
  | .setPaused on => { s with paused := on }
  | .raiseQuit => { s with quitRequested := true }
  | .fulfilPending => s.fulfillPausePromises
  | .fulfilPendingIfPaused => if s.paused then s.fulfillPausePromises else s
  | op =>
    match current with
    | some id => s.performOn id op
    | none => s

/-- The destructor of a command. -/
def release (s : System) (id : Nat) : System :=
  { s with
    memory := Function.update s.memory (s.entries id).address
      { s.memory (s.entries id).address with owner := none } }

/-- A `compare_exchange` from `Queued` that succeeds; the command that lives at the address is the
one that changes. -/
def exchange (s : System) (address : Nat) (desired : CommandState) : System :=
  let stored := s.store address desired
  match (s.memory address).owner with
  | none => stored
  | some id =>
    stored.modify id fun entry =>
      if desired = .executing then { entry with starts := entry.starts + 1 }
      else { entry with cancels := entry.cancels + 1 }

/-- Where the emulation thread goes after `processCommand`. -/
def afterCommand (inFrame goesOn : Bool) : Point :=
  if inFrame then (if goesOn then .frameQueue else .afterFrame) else .top

/-- The next step of the emulation thread. `stays` says whether a frame that nothing interrupts
leaves its loop running; it is `none` when the thread waits for a command. -/
def emulate (s : System) (stays : Bool) : Option System :=
  match s.control with
  | .at .top => some { s with control := .at (if s.running then .frameHead else .checkQuit) }
  | .at .frameHead =>
    some { s with
      control := if s.running then .at .frameQuit else .performing none leaveFrames .checkQuit }
  | .at .frameQuit =>
    some { s with control := .at (if s.quitRequested then .checkQuit else .frameQueue) }
  | .at .frameQueue =>
    match s.queue with
    | [] => some { s with control := .at .afterFrame }
    | id :: rest => some { s with queue := rest, control := .taken id true }
  | .at .afterFrame =>
    some { s with
      control :=
        if s.running && stays then .at .frameHead else .performing none stopFrames .checkQuit }
  | .at .checkQuit =>
    some { s with control := .at (if s.quitRequested then .drain else .wait) }
  | .at .wait =>
    match s.queue with
    | [] => none
    | id :: rest => some { s with queue := rest, control := .taken id false }
  | .at .drain =>
    match s.queue with
    | [] => some { s with control := .performing none leaveFrames .returned }
    | id :: rest => some { s with queue := rest, control := .draining id }
  | .at .returned => none
  | .taken id inFrame =>
    let address := (s.entries id).address
    if (s.memory address).state = .queued then
      some { s.exchange address .executing with control := .examined id inFrame }
    else some { s with control := .performing (some id) withdrawn (afterCommand inFrame true) }
  | .examined id inFrame =>
    let request := (s.entries id).request
    if s.quitRequested && request.command != .quit then
      some { s with control := .performing (some id) refusal (afterCommand inFrame false) }
    else
      some { s with
        control := .performing (some id) (program request) (afterCommand inFrame (goesOn request)) }
  | .draining id =>
    let address := (s.entries id).address
    if (s.memory address).state = .queued then
      some { s.exchange address .cancelled with
        control := .performing (some id) (drainProgram (s.entries id).request) .drain }
    else some { s with control := .performing (some id) [] .drain }
  | .performing current (op :: ops) next =>
    some { s.perform current op with control := .performing current ops next }
  | .performing (some id) [] next => some { s.release id with control := .at next }
  | .performing none [] next => some { s with control := .at next }

end System

/-! ### The clients -/

/-- One step of some thread. -/
inductive Action
  /-- `make_unique` and `get_future`. -/
  | create (id address : Nat) (request : Request)
  /-- `enqueue`. -/
  | enqueue (id : Nat)
  /-- `requestQuit` raises its flag, before it makes its command. -/
  | raiseQuit
  /-- `loadRom` and `loadWav` clear `running_`. -/
  | clearRunning
  /-- Then they pause. -/
  | setPaused
  /-- `wait_for` times out. -/
  | timeOut (id : Nat)
  /-- `rawCmd->state.load`. -/
  | load (id : Nat)
  /-- `rawCmd->state.compare_exchange_strong` from `Queued` to `Cancelled`. -/
  | cancel (id : Nat)
  /-- The future is ready. -/
  | collect (id : Nat)
  /-- The emulation thread. -/
  | emulate (stays : Bool)
deriving DecidableEq, Repr

namespace System

/-- The step of one thread, if it can take it. -/
def step (s : System) : Action → Option System
  | .create id address request =>
    if (s.entries id).submitter = .absent ∧ (s.memory address).owner = none ∧
        (request = .requestQuit → s.quitRequested = true) then
      some { s with
        entries := Function.update s.entries id
          { Entry.vacant with request, address, submitter := .created }
        memory := Function.update s.memory address { state := .queued, owner := some id } }
    else none
  | .enqueue id =>
    if (s.entries id).submitter = .created then
      some ({ s with queue := s.queue ++ [id], history := s.history ++ [id] }.modify id
        fun entry => { entry with submitter := .waiting })
    else none
  | .raiseQuit => some { s with quitRequested := true }
  | .clearRunning => some { s with running := false }
  | .setPaused => some { s with paused := true }
  | .timeOut id =>
    let entry := s.entries id
    if entry.submitter = .waiting ∧ entry.request.timesOut = true ∧ entry.results = [] then
      some (s.modify id fun entry => { entry with submitter := .timedOut })
    else none
  | .load id =>
    let entry := s.entries id
    if entry.submitter = .timedOut then
      let loaded := (s.memory entry.address).state
      some (s.modify id fun entry =>
        { entry with submitter := if loaded = .executing then .blocked else .cancelling })
    else none
  | .cancel id =>
    let entry := s.entries id
    if entry.submitter = .cancelling then
      if (s.memory entry.address).state = .queued then
        some ((s.exchange entry.address .cancelled).modify id
          fun entry => { entry with submitter := .returned none })
      else some (s.modify id fun entry => { entry with submitter := .blocked })
    else none
  | .collect id =>
    let entry := s.entries id
    match entry.results with
    | [] => none
    | answer :: _ =>
      if entry.submitter = .waiting ∨ entry.submitter = .blocked then
        some (s.modify id fun entry => { entry with submitter := .returned (some answer) })
      else none
  | .emulate stays => s.emulate stays

end System

end VectorDebugger.Commands

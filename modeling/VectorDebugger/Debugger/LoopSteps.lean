import VectorDebugger.Debugger.Breakpoints
import VectorDebugger.Library.Transition

/-!
# The steps of the emulation thread

Between two accesses of a client to the backend, the emulation thread may have done any number of
things. They are listed here one by one, with the state each of them leaves, and every run of the
main loop is a run of them. What holds between any two steps of a client is then a fact about one
step of the list.
-/

namespace VectorDebugger

/-- The breakpoint table is edited. -/
def Command.editsBreakpoints : Command → Bool
  | .addBreakpoint _ | .removeBreakpoint _ | .setBreakpointEnabled .. | .clearBreakpoints => true
  | _ => false

/-- What happens to the backend in one step. -/
inductive LoopAction
  /-- Other threads raise flags. -/
  | raise (signals : Signals)
  /-- The beginning of `executeFramesTarget_`. -/
  | resume
  /-- A frame. -/
  | frame (atPoll : Signals)
  /-- An exit branch of the frame loop; `stuck` is the test of the first one. -/
  | stop (stuck : Bool)
  /-- The test of `running_` ends the frame loop. -/
  | leave
  /-- The test of `quitRequested_` in the frame loop. -/
  | quitFrames
  /-- The test of `quitRequested_` in the main loop. -/
  | quit
  /-- A command is taken from the queue. -/
  | take (queued : QueuedCommand)
deriving DecidableEq, Repr

namespace DebugBackend

variable {δ : Type} [Chips δ]

/-! ### What a command leaves alone -/

section Keeps

variable {View : Type} (view : DebugBackend δ → View)

/-- What no instruction changes, no trace changes. -/
theorem traceLoop_keeps (step : ∀ backend, view (stepInstruction backend) = view backend)
    (params : TraceExecutionParams) (left : Nat) :
    ∀ (backend : DebugBackend δ) (bounds : Word × Word),
      view (traceLoop params left backend bounds).1 = view backend := by
  induction left with
  | zero => exact fun backend bounds => rfl
  | succ left inductionHypothesis =>
    intro backend bounds
    unfold traceLoop
    split
    · rfl
    · dsimp only
      split
      · exact step backend
      · exact (inductionHypothesis backend.stepInstruction _).trans (step backend)

omit [Chips δ] in
/-- A write to memory changes the machine and what the hooks keep. -/
theorem writeMemory_keeps
    (write : ∀ backend target instrumentation,
      view { backend with target, instrumentation } = view backend)
    (backend : DebugBackend δ) (address : Word) (writeData : List Byte) :
    view (backend.writeMemory address writeData) = view backend := by
  unfold writeMemory
  generalize writeData.zipIdx = entries
  induction entries generalizing backend with
  | nil => rfl
  | cons entry entries inductionHypothesis =>
    exact (inductionHypothesis _).trans (write backend _ _)

omit [Chips δ] in
theorem whenPaused_keeps (backend : DebugBackend δ) (error : Text) (done : DebugBackend δ)
    (same : view done = view backend) : view (backend.whenPaused error done).1 = view backend := by
  unfold whenPaused
  split
  · exact same
  · rfl

end Keeps

/-- The cells that steer the loop: `state_`, `running_` and `quitRequested_`. -/
def steering (backend : DebugBackend δ) : DebuggerState × Bool × Bool :=
  (backend.state, backend.running, backend.quitRequested)

theorem stepInstruction_steering (backend : DebugBackend δ) :
    backend.stepInstruction.steering = backend.steering := by
  unfold steering stepInstruction
  rfl

/-- Only these commands steer the loop. -/
theorem executeCommand_steering (backend : DebugBackend δ) (command : Command) :
    (backend.executeCommand command).1.steering =
      match command with
      | .run => (.running, true, backend.quitRequested)
      | .reset | .restart => (.paused, false, backend.quitRequested)
      | .loadRom .. => (backend.state, false, backend.quitRequested)
      | _ => backend.steering := by
  cases command with
  | addBreakpoint =>
    unfold executeCommand addBreakpoint
    dsimp only
    split <;> rfl
  | removeBreakpoint =>
    unfold executeCommand removeBreakpoint
    dsimp only
    split <;> rfl
  | setBreakpointEnabled =>
    unfold executeCommand setBreakpointEnabled
    dsimp only
    split <;> rfl
  | memoryWrite address data =>
    refine whenPaused_keeps steering _ _ _ ?_
    exact writeMemory_keeps steering (fun _ _ _ => rfl) backend address data
  | registerWrite | ioWrite => exact whenPaused_keeps steering _ _ _ rfl
  | executeTrace params =>
    unfold executeCommand
    dsimp only
    split
    · rfl
    · exact traceLoop_keeps steering stepInstruction_steering params _ _ _
  | step => exact backend.stepInstruction_steering
  | _ => rfl

/-- Of the commands, only `Quit` itself asks to quit. -/
theorem executeCommand_quitRequested (backend : DebugBackend δ) (command : Command) :
    (backend.executeCommand command).1.quitRequested = backend.quitRequested := by
  have steering := congrArg (·.2.2) (backend.executeCommand_steering command)
  refine Eq.trans steering ?_
  cases command <;> rfl

/-! ### The steps -/

/-- The beginning of `executeFramesTarget_`. -/
def resumeFrames (backend : DebugBackend δ) : DebugBackend δ :=
  let synced := backend.syncBreakpointsToTarget
  if synced.skipBreakpoint && synced.checkBreakpoint then
    { synced with skipBreakpoint := false }.stepInstruction
  else synced

theorem resumeFrames_keeps {View : Type} (view : DebugBackend δ → View)
    (sync : ∀ backend, view (syncBreakpointsToTarget backend) = view backend)
    (skip : ∀ (backend : DebugBackend δ) skipBreakpoint,
      view { backend with skipBreakpoint } = view backend)
    (step : ∀ backend, view (stepInstruction backend) = view backend)
    (backend : DebugBackend δ) : view backend.resumeFrames = view backend := by
  unfold resumeFrames
  dsimp only
  split
  · exact (step _).trans ((skip _ false).trans (sync backend))
  · exact sync backend

/-- The state after a step, if it can be taken. -/
def loopStep (backend : DebugBackend δ) : LoopAction → Option (DebugBackend δ)
  | .raise signals => some (backend.raise signals)
  | .resume => if backend.running then some backend.resumeFrames else none
  | .frame atPoll =>
    if backend.running && !backend.quitRequested then
      some (backend.enterFrame atPoll).executeFrame.2
    else none
  | .stop stuck =>
    let pausing := backend.pauseRequested || !backend.running
    if backend.checkBreakpoint && (stuck || !pausing) then
      some backend.stopOnBreakpoint.leaveFrames.backend
    else if pausing then some backend.stopOnPause.leaveFrames.backend
    else none
  | .leave => if backend.running then none else some backend.leaveFrames.backend
  | .quitFrames =>
    if backend.quitRequested then
      some { backend with target := backend.target.debuggerBreak.debuggerDetached }
    else none
  | .quit =>
    if backend.quitRequested then
      some { backend with state := .paused, target := backend.target.debuggerDetached }
    else none
  | .take queued => some (backend.processCommand queued).backend

/-- One step with the action that it takes. -/
def LoopStep (backend : DebugBackend δ) (action : LoopAction) (after : DebugBackend δ) : Prop :=
  backend.loopStep action = some after

theorem loopStep_leave (backend : DebugBackend δ) (stopped : backend.running = false) :
    backend.loopStep .leave = some backend.leaveFrames.backend :=
  if_neg (by rw [stopped]; exact nofun)

theorem loopStep_frame (backend : DebugBackend δ) (atPoll : Signals)
    (running : backend.running = true) (goesOn : backend.quitRequested = false) :
    backend.loopStep (.frame atPoll) = some (backend.enterFrame atPoll).executeFrame.2 :=
  if_pos (by rw [running, goesOn]; rfl)

theorem loopStep_stop (backend : DebugBackend δ) (stuck : Bool) :
    backend.loopStep (.stop stuck) =
      if backend.checkBreakpoint && (stuck || !(backend.pauseRequested || !backend.running)) then
        some backend.stopOnBreakpoint.leaveFrames.backend
      else if backend.pauseRequested || !backend.running then
        some backend.stopOnPause.leaveFrames.backend
      else none := rfl

/-- The second state is reached from the first by steps. -/
def Reaches (backend after : DebugBackend δ) : Prop :=
  ∃ actions, Transition.Run LoopStep backend actions after

theorem Reaches.refl (backend : DebugBackend δ) : backend.Reaches backend :=
  ⟨[], .nil backend⟩

theorem Reaches.step {backend middle after : DebugBackend δ} (action : LoopAction)
    (first : backend.loopStep action = some middle) (rest : middle.Reaches after) :
    backend.Reaches after := by
  obtain ⟨actions, run⟩ := rest
  exact ⟨action :: actions, .cons first run⟩

theorem Reaches.trans {backend middle after : DebugBackend δ} (first : backend.Reaches middle)
    (rest : middle.Reaches after) : backend.Reaches after := by
  obtain ⟨front, front'⟩ := first
  obtain ⟨back, back'⟩ := rest
  exact ⟨front ++ back, front'.append back'⟩

theorem drainCommands_reaches (commands : List (Signals × QueuedCommand)) :
    ∀ backend : DebugBackend δ, backend.Reaches (backend.drainCommands commands) := by
  induction commands with
  | nil => exact fun backend => .refl backend
  | cons entry commands inductionHypothesis =>
    obtain ⟨signals, queued⟩ := entry
    intro backend
    refine .step (.raise signals) rfl (.step (.take queued) rfl ?_)
    unfold drainCommands
    dsimp only
    split
    · exact inductionHypothesis _
    · exact .refl _

theorem frames_reaches (inputs : List FrameInput) :
    ∀ backend : DebugBackend δ, backend.Reaches (frames inputs backend).backend := by
  induction inputs with
  | nil =>
    intro backend
    unfold frames
    cases running : backend.running with
    | true => exact .refl backend
    | false => exact .step .leave (backend.loopStep_leave running) (.refl _)
  | cons input inputs inductionHypothesis =>
    intro backend
    unfold frames
    cases running : backend.running with
    | false => exact .step .leave (backend.loopStep_leave running) (.refl _)
    | true =>
      refine .step (.raise input.before) rfl ?_
      dsimp only [Bool.not_true]
      rw [if_neg (show ¬(!true) = true by decide)]
      have enteredRunning : (backend.raise input.before).running = true := running
      generalize backend.raise input.before = entered at enteredRunning
      by_cases quit : entered.quitRequested = true
      · rw [if_pos quit]
        exact .step .quitFrames (if_pos quit) (.refl _)
      · rw [if_neg quit]
        refine .step (.frame input.atPoll)
          (loopStep_frame _ _ enteredRunning (Bool.eq_false_of_not_eq_true quit)) ?_
        refine (drainCommands_reaches input.commands _).trans (.step (.raise input.after) rfl ?_)
        generalize (entered.enterFrame input.atPoll).executeFrame = executed
        generalize (executed.2.drainCommands input.commands).raise input.after = settled
        generalize (executed.2.target.pc == entered.target.pc && !settled.quitRequested) = stuck
        have stop := settled.loopStep_stop stuck
        split_ifs at stop ⊢
        · exact .step (.stop stuck) stop (.refl _)
        · exact .step (.stop stuck) stop (.refl _)
        · exact inductionHypothesis settled

theorem executeFramesTarget_reaches (backend : DebugBackend δ) (running : backend.running = true)
    (inputs : List FrameInput) :
    backend.Reaches (backend.executeFramesTarget inputs).backend := by
  refine .step .resume (if_pos running) ?_
  unfold executeFramesTarget resumeFrames
  dsimp only
  split
  · exact frames_reaches inputs _
  · exact frames_reaches inputs _

theorem mainLoop_reaches (inputs : List MainInput) :
    ∀ backend : DebugBackend δ, backend.Reaches (mainLoop inputs backend).backend := by
  induction inputs with
  | nil => exact fun backend => .refl backend
  | cons input inputs inductionHypothesis =>
    intro backend
    unfold mainLoop
    dsimp only
    generalize ranEq : (if backend.running then backend.executeFramesTarget input.frames
      else { skipped := none, passes := [], backend, finished := true }) = ran
    have reached : backend.Reaches ran.backend := by
      rw [← ranEq]
      split
      · rename_i running
        exact backend.executeFramesTarget_reaches running input.frames
      · exact .refl backend
    refine reached.trans ?_
    split
    · exact .refl _
    · refine .step (.raise input.before) rfl ?_
      split
      · rename_i quit
        exact .step .quit (if_pos quit) (.refl _)
      · refine .step (.raise input.command.1) rfl (.step (.take input.command.2) rfl ?_)
        exact inductionHypothesis _

/-- Every run of the main loop, once the target is attached, is a run of its steps. -/
theorem runUntilPause_reaches (backend : DebugBackend δ) (inputs : List MainInput) :
    { backend with target := backend.target.debuggerAttached }.Reaches
      (backend.runUntilPause inputs).backend :=
  mainLoop_reaches inputs _

end DebugBackend

end VectorDebugger

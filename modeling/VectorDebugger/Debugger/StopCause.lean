import VectorDebugger.Debugger.LoopSteps

/-!
# Why a run stopped

A run of the frame loop ends because the processor is on an enabled breakpoint, because a pause
was requested, because a command took the machine out of its hands, or because the debugger
quits. The exit branches of the loop know only the first two: whatever else ended the run, they
write over the reason it left, and the quit test leaves `running_` set.
-/

namespace VectorDebugger

/-- What commands have done to a run so far. -/
structure RunEvents where
  /-- The command that ended the run, if it has not been started again. -/
  ended : Option Command
  /-- A `Pause` was executed. -/
  asked : Bool
deriving DecidableEq, Repr

namespace RunEvents

/-- A run that no command has touched. -/
def none : RunEvents := { ended := .none, asked := false }

/-- The events after a command was executed. The first command to end the run is its cause. -/
def after (events : RunEvents) (command : Command) : RunEvents :=
  match command with
  | .run => { events with ended := .none }
  | .pause => { ended := some (events.ended.getD command), asked := true }
  | .quit | .reset | .restart | .loadRom .. | .executeTrace .. =>
    { events with ended := some (events.ended.getD command) }
  | _ => events

/-- A run that a pause ended was asked to pause. -/
def Asked (events : RunEvents) : Prop := events.ended = some .pause → events.asked = true

theorem Asked.after {events : RunEvents} (asked : events.Asked) (command : Command) :
    (events.after command).Asked := by
  have kept : ∀ command : Command, command ≠ .pause →
      some (events.ended.getD command) = some .pause → events.asked = true := by
    intro command other isPause
    refine asked ?_
    cases ended : events.ended with
    | none =>
      rw [ended] at isPause
      exact absurd (Option.some.inj isPause) other
    | some first =>
      rw [ended] at isPause
      exact isPause
  cases command with
  | run => exact nofun
  | pause => exact fun _ => rfl
  | quit | reset | restart => exact kept _ nofun
  | loadRom name org => exact kept _ nofun
  | executeTrace params => exact kept _ nofun
  | _ => exact asked

end RunEvents

/-- How a run of the frame loop ended. -/
inductive FramesEnd (δ : Type)
  /-- The test of `quitRequested_` returned at once. -/
  | quit
  /-- An exit branch broke the loop, in this state; `stuck` is the test of the first branch,
  that the frame left the program counter where it was and the debugger does not quit. -/
  | broke (events : RunEvents) (stuck : Bool) (state : DebugBackend δ)

namespace DebugBackend

variable {δ : Type} [Chips δ]

/-- What the commands of a pass did to the run, along `drainCommands`. -/
def drainEvents : DebugBackend δ → List (Signals × QueuedCommand) → RunEvents → RunEvents
  | _, [], events => events
  | backend, (signals, queued) :: rest, events =>
    let before := backend.raise signals
    let processed := before.processCommand queued
    let events' :=
      if queued.withdrawn || before.quitRequested && queued.command != .quit then events
      else events.after queued.command
    if processed.goesOn then processed.backend.drainEvents rest events' else events'

/-- How the loop of `frames` ends, if it does. -/
def framesEnd : List FrameInput → DebugBackend δ → Option (FramesEnd δ)
  | [], _ => none
  | input :: inputs, backend =>
    let entered := backend.raise input.before
    if entered.quitRequested then some .quit
    else
      let executed := (entered.enterFrame input.atPoll).executeFrame
      let settled := (executed.2.drainCommands input.commands).raise input.after
      let stuck := executed.2.target.pc == entered.target.pc && !settled.quitRequested
      if settled.checkBreakpoint || settled.pauseRequested || !settled.running then
        some (.broke (executed.2.drainEvents input.commands .none) stuck settled)
      else framesEnd inputs settled

/-- How `executeFramesTarget` ends, if it does. -/
def targetEnd (backend : DebugBackend δ) (inputs : List FrameInput) : Option (FramesEnd δ) :=
  let synced := backend.syncBreakpointsToTarget
  if synced.skipBreakpoint && synced.checkBreakpoint then
    framesEnd inputs { synced with skipBreakpoint := false }.stepInstruction
  else framesEnd inputs synced

/-- The exit branch that a pass takes when it takes one. -/
def exitBranch (settled : DebugBackend δ) (stuck : Bool) : DebugBackend δ :=
  if settled.checkBreakpoint && (stuck || !(settled.pauseRequested || !settled.running)) then
    settled.stopOnBreakpoint
  else settled.stopOnPause

end DebugBackend

namespace FramesEnd

variable {δ : Type}

/-- A pause was requested before the loop ended. -/
def PauseRequested : FramesEnd δ → Prop
  | .quit => False
  | .broke events _ state => events.asked = true ∨ state.pauseRequested = true

/-- A `Reset` or `Restart` ended the run. -/
def ResetEnded : FramesEnd δ → Prop
  | .quit => False
  | .broke events _ _ => events.ended = some .reset ∨ events.ended = some .restart

/-- The exit branch names the cause: no command ended the run, or a pause did, or it was one
other than `Reset` and `Restart` while a pause was requested or the first branch found a
breakpoint. -/
def Named : FramesEnd δ → Prop
  | .quit => False
  | .broke events stuck state =>
    match events.ended with
    | none | some .pause => True
    | some .reset | some .restart => False
    | some _ =>
      (events.asked = true ∨ state.pauseRequested = true) ∨
        stuck = true ∧ state.checkBreakpoint = true

/-- The state after a run is what the claim on stop reasons demands of it. -/
structure Reported (fin : FramesEnd δ) (after : DebugBackend δ) : Prop where
  /-- `running_` is false. -/
  stopped : after.running = false
  /-- `state_` is `Paused`. -/
  paused : after.state = .paused
  /-- The reason is one of the three. -/
  reason : after.stopReason = .breakpoint ∨ after.stopReason = .userPause ∨
    after.stopReason = .reset
  /-- `Breakpoint` when the program counter is on an enabled breakpoint. -/
  breakpoint : after.stopReason = .breakpoint → after.checkBreakpoint = true
  /-- `UserPause` when a pause was requested. -/
  userPause : after.stopReason = .userPause → fin.PauseRequested
  /-- `Reset` when a `Reset` or `Restart` ended the run, and only then. -/
  reset : after.stopReason = .reset ↔ fin.ResetEnded

end FramesEnd

namespace FramesEnd

variable {δ : Type} {events : RunEvents} {stuck : Bool} {settled after : DebugBackend δ}

/-- What an exit branch leaves is reported exactly when the branch names the cause. -/
theorem reported_iff (stopped : after.running = false) (paused : after.state = .paused)
    (check : after.checkBreakpoint = settled.checkBreakpoint)
    (reason : after.stopReason =
      if settled.checkBreakpoint && (stuck || !(settled.pauseRequested || !settled.running)) then
        .breakpoint
      else .userPause)
    (running : settled.running = events.ended.isNone) (asked : events.Asked)
    (breaks : (settled.checkBreakpoint || settled.pauseRequested || !settled.running) = true) :
    (FramesEnd.broke events stuck settled).Reported after ↔
      (FramesEnd.broke events stuck settled).Named := by
  obtain ⟨pauseRequested, pauseEq⟩ : ∃ flag, flag = settled.pauseRequested := ⟨_, rfl⟩
  obtain ⟨onBreakpoint, onEq⟩ : ∃ flag, flag = settled.checkBreakpoint := ⟨_, rfl⟩
  rw [running, ← pauseEq, ← onEq] at reason breaks
  rw [← onEq] at check
  -- with the reason known, the report comes down to the three causes
  have report : (FramesEnd.broke events stuck settled).Reported after ↔
      ¬ (FramesEnd.broke events stuck settled).ResetEnded ∧
        (after.stopReason = .userPause →
          (FramesEnd.broke events stuck settled).PauseRequested) := by
    have notReset : after.stopReason ≠ .reset := by
      rw [reason]
      split <;> exact nofun
    have onlyHere : after.stopReason = .breakpoint → onBreakpoint = true := by
      rw [reason]
      split
      · rename_i stops
        exact fun _ => (Bool.and_eq_true_iff.mp stops).1
      · exact nofun
    constructor
    · intro reported
      exact ⟨fun ended => notReset (reported.reset.mpr ended), reported.userPause⟩
    · rintro ⟨notEnded, userPause⟩
      refine ⟨stopped, paused, ?_, fun here => check.trans (onlyHere here), userPause,
        fun reset => absurd reset notReset, fun ended => absurd ended notEnded⟩
      rw [reason]
      split
      · exact Or.inl rfl
      · exact Or.inr (Or.inl rfl)
  rw [report, reason]
  unfold ResetEnded PauseRequested Named
  unfold RunEvents.Asked at asked
  obtain ⟨ended, wasAsked⟩ := events
  dsimp only at asked breaks ⊢
  rw [← pauseEq, ← onEq]
  cases ended with
  | none => cases onBreakpoint <;> cases pauseRequested <;> cases stuck <;> simp_all
  | some command =>
    cases command with
    | pause => simp [asked rfl]
    | reset | restart => simp
    | _ => cases onBreakpoint <;> cases pauseRequested <;> cases stuck <;> simp

/-- No exit branch names a reset. -/
theorem not_named_of_reset {fin : FramesEnd δ} (reset : fin.ResetEnded) : ¬ fin.Named := by
  cases fin with
  | quit => exact False.elim reset
  | broke events stuck settled =>
    obtain ⟨ended, asked⟩ := events
    intro named
    unfold Named at named
    obtain isReset | isRestart := reset
    · subst isReset
      exact named
    · subst isRestart
      exact named

end FramesEnd

namespace DebugBackend

variable {δ : Type} [Chips δ]

theorem stepInstruction_running (backend : DebugBackend δ) :
    backend.stepInstruction.running = backend.running :=
  congrArg (·.2.1) backend.stepInstruction_steering

/-- Only these commands change `running_`. -/
theorem executeCommand_running (backend : DebugBackend δ) (command : Command) :
    (backend.executeCommand command).1.running =
      match command with
      | .run => true
      | .reset | .restart | .loadRom .. => false
      | _ => backend.running := by
  have steering := congrArg (·.2.1) (backend.executeCommand_steering command)
  refine Eq.trans steering ?_
  cases command <;> rfl

/-- `running_` says whether a command has ended the run. -/
theorem processCommand_running (backend : DebugBackend δ) (queued : QueuedCommand)
    (events : RunEvents) (before : backend.running = events.ended.isNone) :
    (backend.processCommand queued).backend.running =
      (if queued.withdrawn || backend.quitRequested && queued.command != .quit then events
        else events.after queued.command).ended.isNone := by
  unfold processCommand
  cases withdrawn : queued.withdrawn with
  | true =>
    rw [if_pos rfl, Bool.true_or, if_pos rfl]
    exact before
  | false =>
    rw [if_neg nofun, Bool.false_or]
    cases quit : backend.quitRequested && queued.command != .quit with
    | true =>
      rw [if_pos rfl, if_pos rfl]
      exact before
    | false =>
      rw [if_neg nofun, if_neg nofun]
      have executed := backend.executeCommand_running queued.command
      unfold RunEvents.after
      cases command : queued.command with
      | executeTrace params => exact executeCommand_running _ (.executeTrace params)
      | quit | pause => rfl
      | _ =>
        rw [command] at executed
        exact executed.trans (by first | rfl | exact before)

theorem drainCommands_running (commands : List (Signals × QueuedCommand)) :
    ∀ (backend : DebugBackend δ) (events : RunEvents),
      backend.running = events.ended.isNone →
        (backend.drainCommands commands).running =
          (backend.drainEvents commands events).ended.isNone := by
  induction commands with
  | nil => exact fun backend events before => before
  | cons entry commands inductionHypothesis =>
    intro backend events before
    have processed := processCommand_running (backend.raise entry.1) entry.2 events before
    unfold drainCommands drainEvents
    dsimp only
    split
    · exact inductionHypothesis _ _ processed
    · exact processed

theorem drainEvents_asked (commands : List (Signals × QueuedCommand)) :
    ∀ (backend : DebugBackend δ) (events : RunEvents), events.Asked →
      (backend.drainEvents commands events).Asked := by
  induction commands with
  | nil => exact fun backend events asked => asked
  | cons entry commands inductionHypothesis =>
    intro backend events asked
    have next : (if entry.2.withdrawn ||
        (backend.raise entry.1).quitRequested && entry.2.command != .quit then events
        else events.after entry.2.command).Asked := by
      split
      · exact asked
      · exact asked.after _
    unfold drainEvents
    dsimp only
    split
    · exact inductionHypothesis _ _ next
    · exact next

omit [Chips δ] in
/-- The exit branches leave one of two reasons. -/
theorem exitBranch_spec (settled : DebugBackend δ) (stuck : Bool) :
    (settled.exitBranch stuck).running = false ∧
      (settled.exitBranch stuck).checkBreakpoint = settled.checkBreakpoint ∧
      (settled.exitBranch stuck).stopReason =
        if settled.checkBreakpoint && (stuck || !(settled.pauseRequested || !settled.running)) then
          .breakpoint
        else .userPause := by
  unfold exitBranch
  split
  · exact ⟨rfl, rfl, rfl⟩
  · exact ⟨rfl, rfl, rfl⟩

/-- What an end of the frame loop says of the run, from its start to its final state. -/
def Ends (run : FramesRun δ) : Option (FramesEnd δ) → Prop
  | none => run.finished = false
  | some .quit => run.finished = true ∧ run.backend.running = true
  | some (.broke events stuck settled) =>
    run.finished = true ∧
      run.backend = { settled.exitBranch stuck with state := .paused } ∧
      settled.running = events.ended.isNone ∧ events.Asked ∧
      (settled.checkBreakpoint || settled.pauseRequested || !settled.running) = true

omit [Chips δ] in
theorem Ends.of_same {run other : FramesRun δ} {fin : Option (FramesEnd δ)}
    (ends : Ends run fin) (finished : other.finished = run.finished)
    (backend : other.backend = run.backend) :
    Ends other fin := by
  unfold Ends at *
  rw [finished, backend]
  exact ends

omit [Chips δ] in
/-- The poll callback leaves `running_` alone, and `quitRequested_` but for what was raised. -/
theorem enterFrame_kept (backend : DebugBackend δ) (signals : Signals) :
    (backend.enterFrame signals).running = backend.running ∧
      (backend.enterFrame signals).quitRequested = (backend.quitRequested || signals.quit) := by
  unfold enterFrame poll
  split
  · exact ⟨rfl, rfl⟩
  · split
    · exact ⟨rfl, rfl⟩
    · split <;> exact ⟨rfl, rfl⟩

theorem frames_ends (inputs : List FrameInput) :
    ∀ backend : DebugBackend δ, backend.running = true →
      Ends (frames inputs backend) (framesEnd inputs backend) := by
  induction inputs with
  | nil =>
    intro backend running
    unfold frames framesEnd
    rw [if_pos running]
    rfl
  | cons input inputs inductionHypothesis =>
    intro backend running
    obtain ⟨entered, enteredEq⟩ : ∃ entered, entered = backend.raise input.before := ⟨_, rfl⟩
    have enteredRunning : entered.running = true := by
      rw [enteredEq]
      exact running
    unfold frames framesEnd
    dsimp only
    rw [running, ← enteredEq]
    cases quit : entered.quitRequested with
    | true => exact ⟨rfl, enteredRunning⟩
    | false =>
      obtain ⟨executed, executedEq⟩ :
          ∃ executed, executed = (entered.enterFrame input.atPoll).executeFrame := ⟨_, rfl⟩
      have executedRunning : executed.2.running = true := by
        rw [executedEq]
        exact (entered.enterFrame_kept input.atPoll).1.trans enteredRunning
      have drained := executed.2.drainCommands_running input.commands .none executedRunning
      have asked := executed.2.drainEvents_asked input.commands .none
        fun ended => absurd ended.symm (Option.some_ne_none _)
      rw [← executedEq]
      obtain ⟨settled, settledEq⟩ :
          ∃ settled, settled = (executed.2.drainCommands input.commands).raise input.after :=
        ⟨_, rfl⟩
      have settledRunning : settled.running =
          (executed.2.drainEvents input.commands .none).ended.isNone := by
        rw [settledEq]
        exact drained
      rw [← settledEq]
      obtain ⟨stuck, stuckEq⟩ : ∃ stuck,
          stuck = (executed.2.target.pc == entered.target.pc && !settled.quitRequested) := ⟨_, rfl⟩
      rw [← stuckEq]
      simp only [Bool.not_true, Bool.false_eq_true, if_false]
      cases stops : settled.checkBreakpoint &&
          (stuck || !(settled.pauseRequested || !settled.running)) with
      | true =>
        have breaks :
            (settled.checkBreakpoint || settled.pauseRequested || !settled.running) = true := by
          rw [(Bool.and_eq_true_iff.mp stops).1, Bool.true_or, Bool.true_or]
        rw [if_pos rfl, if_pos breaks]
        refine ⟨rfl, ?_, settledRunning, asked, breaks⟩
        unfold exitBranch
        rw [if_pos stops]
        rfl
      | false =>
        rw [if_neg Bool.false_ne_true]
        cases pausing : settled.pauseRequested || !settled.running with
        | true =>
          have breaks :
              (settled.checkBreakpoint || settled.pauseRequested || !settled.running) = true := by
            rw [Bool.or_assoc, pausing, Bool.or_true]
          rw [if_pos rfl, if_pos breaks]
          refine ⟨rfl, ?_, settledRunning, asked, breaks⟩
          have goes : ¬ (settled.checkBreakpoint &&
              (stuck || !(settled.pauseRequested || !settled.running))) = true := by
            rw [stops]
            exact Bool.false_ne_true
          unfold exitBranch
          rw [if_neg goes]
          rfl
        | false =>
          have runs : settled.running = true := by
            simpa using (Bool.or_eq_false_iff.mp pausing).2
          have clear : settled.checkBreakpoint = false := by
            simpa [pausing] using stops
          have stays :
              ¬ (settled.checkBreakpoint || settled.pauseRequested || !settled.running) = true := by
            rw [Bool.or_assoc, pausing, clear]
            exact Bool.false_ne_true
          rw [if_neg Bool.false_ne_true, if_neg stays]
          exact (inductionHypothesis settled runs).of_same rfl rfl

theorem executeFramesTarget_ends (backend : DebugBackend δ) (inputs : List FrameInput)
    (running : backend.running = true) :
    Ends (backend.executeFramesTarget inputs) (backend.targetEnd inputs) := by
  obtain ⟨synced, syncedEq⟩ : ∃ synced, synced = backend.syncBreakpointsToTarget := ⟨_, rfl⟩
  have runs : synced.running = true := by
    rw [syncedEq]
    exact running
  unfold executeFramesTarget targetEnd
  dsimp only
  rw [← syncedEq]
  cases synced.skipBreakpoint && synced.checkBreakpoint with
  | true =>
    obtain ⟨stepped, steppedEq⟩ : ∃ stepped,
        stepped = { synced with skipBreakpoint := false }.stepInstruction := ⟨_, rfl⟩
    have still : stepped.running = true := by
      rw [steppedEq, stepInstruction_running]
      exact runs
    rw [if_pos rfl, if_pos rfl, ← steppedEq]
    exact (frames_ends inputs stepped still).of_same rfl rfl
  | false => exact frames_ends inputs synced runs

/-- What the main loop runs in one pass. -/
def ran (backend : DebugBackend δ) (input : MainInput) : FramesRun δ :=
  if backend.running then backend.executeFramesTarget input.frames
  else { skipped := none, passes := [], backend, finished := true }

/-- The state in which the main loop, after a run, has the debugger paused: when it quits it
sets `state_` itself. -/
def pausedAfter (backend : DebugBackend δ) (input : MainInput) : DebugBackend δ :=
  let entered := (backend.ran input).backend.raise input.before
  if entered.quitRequested then
    { entered with state := .paused, target := entered.target.debuggerDetached }
  else entered

/-- The state with which the main loop goes on, when it does. -/
def nextPass (backend : DebugBackend δ) (input : MainInput) : Option (DebugBackend δ) :=
  let entered := (backend.ran input).backend.raise input.before
  if (backend.ran input).finished && !entered.quitRequested then
    some ((entered.raise input.command.1).processCommand input.command.2).backend
  else none

/-- The main loop in these terms. -/
theorem mainLoop_cons (input : MainInput) (inputs : List MainInput) (backend : DebugBackend δ) :
    mainLoop (input :: inputs) backend =
      match backend.nextPass input with
      | some next =>
        { mainLoop inputs next with runs := backend.ran input :: (mainLoop inputs next).runs }
      | none =>
        if (backend.ran input).finished then
          { runs := [backend.ran input], backend := backend.pausedAfter input, finished := true }
        else
          { runs := [backend.ran input], backend := (backend.ran input).backend,
            finished := false } := by
  have inlined : (if backend.running then backend.executeFramesTarget input.frames
      else { skipped := none, passes := [], backend, finished := true }) = backend.ran input := rfl
  rw [mainLoop, inlined]
  unfold nextPass pausedAfter
  obtain ⟨run, runEq⟩ : ∃ run, run = backend.ran input := ⟨_, rfl⟩
  obtain ⟨entered, enteredEq⟩ : ∃ entered, entered = run.backend.raise input.before := ⟨_, rfl⟩
  dsimp only
  rw [← runEq, ← enteredEq]
  cases run.finished with
  | false => rfl
  | true =>
    cases entered.quitRequested with
    | true => rfl
    | false => rfl

/-- Every run that the main loop starts and that ends is reported with its cause. -/
def ReportedThroughout : List MainInput → DebugBackend δ → Prop
  | [], _ => True
  | input :: inputs, backend =>
    (∀ fin, backend.running = true → backend.targetEnd input.frames = some fin →
        fin.Reported (backend.pausedAfter input)) ∧
      ∀ next, backend.nextPass input = some next → next.ReportedThroughout inputs

/-- Every run that the main loop starts and that ends has a cause that the exit branch names. -/
def NamedThroughout : List MainInput → DebugBackend δ → Prop
  | [], _ => True
  | input :: inputs, backend =>
    (∀ fin, backend.running = true → backend.targetEnd input.frames = some fin → fin.Named) ∧
      ∀ next, backend.nextPass input = some next → next.NamedThroughout inputs

/-- After a run that ended, the reason is its cause exactly when the exit branch names it. -/
theorem pausedAfter_reported_iff (backend : DebugBackend δ) (input : MainInput)
    (running : backend.running = true) {fin : FramesEnd δ}
    (ended : backend.targetEnd input.frames = some fin) :
    fin.Reported (backend.pausedAfter input) ↔ fin.Named := by
  have ends := backend.executeFramesTarget_ends input.frames running
  have ranEq : backend.ran input = backend.executeFramesTarget input.frames := if_pos running
  rw [ended, ← ranEq] at ends
  have kept : (backend.pausedAfter input).running = (backend.ran input).backend.running ∧
      (backend.pausedAfter input).stopReason = (backend.ran input).backend.stopReason ∧
      (backend.pausedAfter input).checkBreakpoint =
        (backend.ran input).backend.checkBreakpoint ∧
      ((backend.ran input).backend.state = .paused →
        (backend.pausedAfter input).state = .paused) := by
    unfold pausedAfter
    dsimp only
    split
    · exact ⟨rfl, rfl, rfl, fun _ => rfl⟩
    · exact ⟨rfl, rfl, rfl, fun same => same⟩
  obtain ⟨keptRunning, keptReason, keptCheck, keptState⟩ := kept
  cases fin with
  | quit =>
    obtain ⟨-, still⟩ := ends
    refine ⟨fun reported => ?_, False.elim⟩
    exact nomatch (reported.stopped.symm.trans (keptRunning.trans still))
  | broke events stuck settled =>
    obtain ⟨-, final, settledRunning, asked, breaks⟩ := ends
    obtain ⟨halted, check, reason⟩ := settled.exitBranch_spec stuck
    have stopped : (backend.pausedAfter input).running = false := by
      rw [keptRunning, final]
      exact halted
    have paused : (backend.pausedAfter input).state = .paused := keptState (by rw [final])
    have checkAfter : (backend.pausedAfter input).checkBreakpoint = settled.checkBreakpoint := by
      rw [keptCheck, final]
      exact check
    have reasonAfter : (backend.pausedAfter input).stopReason =
        if settled.checkBreakpoint && (stuck || !(settled.pauseRequested || !settled.running)) then
          .breakpoint
        else .userPause := by
      rw [keptReason, final]
      exact reason
    exact FramesEnd.reported_iff stopped paused checkAfter reasonAfter settledRunning asked breaks

/-- The reported stop reason is the cause of the stop: over every sequence of inputs of the main
loop, each run that ends is reported with its cause exactly when each ends by one that the exit
branch names. -/
theorem stop_reported_iff (inputs : List MainInput) (backend : DebugBackend δ) :
    backend.ReportedThroughout inputs ↔ backend.NamedThroughout inputs := by
  induction inputs generalizing backend with
  | nil => exact Iff.rfl
  | cons input inputs inductionHypothesis =>
    unfold ReportedThroughout NamedThroughout
    constructor
    · rintro ⟨first, rest⟩
      exact ⟨fun fin running ended =>
          (backend.pausedAfter_reported_iff input running ended).mp (first fin running ended),
        fun next goesOn => (inductionHypothesis next).mp (rest next goesOn)⟩
    · rintro ⟨first, rest⟩
      exact ⟨fun fin running ended =>
          (backend.pausedAfter_reported_iff input running ended).mpr (first fin running ended),
        fun next goesOn => (inductionHypothesis next).mpr (rest next goesOn)⟩

/-- A schedule in which the only thing that happens to a run is one command after its first
frame. -/
def MainInput.after (command : Command) : MainInput where
  frames :=
    [{ before := .none, atPoll := .none
       commands := [(.none, { command, withdrawn := false })], after := .none }]
  before := .none
  command := (.none, { command := .pause, withdrawn := false })

/-- A `Reset` after the first frame ends the run. -/
theorem framesEnd_reset (backend : DebugBackend δ) (running : backend.running = true)
    (goesOn : backend.quitRequested = false) :
    ∃ fin, framesEnd (MainInput.after .reset).frames backend = some fin ∧ fin.ResetEnded := by
  obtain ⟨entered, enteredEq⟩ : ∃ entered, entered = backend.raise .none := ⟨_, rfl⟩
  have quit : entered.quitRequested = false := by
    rw [enteredEq]
    exact (Bool.or_false _).trans goesOn
  have enteredRunning : entered.running = true := by
    rw [enteredEq]
    exact running
  obtain ⟨executed, executedEq⟩ :
      ∃ executed, executed = (entered.enterFrame .none).executeFrame := ⟨_, rfl⟩
  obtain ⟨keptRunning, keptQuit⟩ := entered.enterFrame_kept .none
  have executedRunning : executed.2.running = true := by
    rw [executedEq]
    exact keptRunning.trans enteredRunning
  have executedQuit : (executed.2.raise .none).quitRequested = false := by
    rw [executedEq]
    change ((entered.enterFrame .none).quitRequested || false) = false
    rw [keptQuit, quit]
    rfl
  have goes : (executed.2.raise .none).processCommand { command := .reset, withdrawn := false } =
      { backend := ((executed.2.raise .none).executeCommand .reset).1
        outcome := ((executed.2.raise .none).executeCommand .reset).2, goesOn := true } := by
    unfold processCommand
    rw [if_neg nofun, executedQuit, if_neg nofun]
  have events : executed.2.drainEvents [(.none, { command := .reset, withdrawn := false })] .none =
      { ended := some .reset, asked := false } := by
    unfold drainEvents
    dsimp only
    rw [goes, executedQuit]
    rfl
  have halted := executed.2.drainCommands_running
    [(.none, { command := .reset, withdrawn := false })] .none executedRunning
  rw [events] at halted
  obtain ⟨drained, drainedEq⟩ : ∃ drained, drained =
      executed.2.drainCommands [(.none, { command := .reset, withdrawn := false })] := ⟨_, rfl⟩
  have stopped : (drained.raise .none).running = false := by
    rw [drainedEq]
    exact halted
  refine ⟨.broke { ended := some .reset, asked := false }
    (executed.2.target.pc == entered.target.pc && !(drained.raise .none).quitRequested)
    (drained.raise .none), ?_, Or.inl rfl⟩
  unfold MainInput.after framesEnd
  dsimp only
  rw [← enteredEq, quit, ← executedEq, ← drainedEq, stopped, events]
  simp

/-- A backend just started, and told to run. -/
def started : DebugBackend Unit := (init () [] fun _ => []).beginRun

/-- A run that a `Reset` ends is reported as a pause by the user. -/
theorem reset_reported_as_pause : ¬ started.ReportedThroughout [.after .reset] := by
  intro reported
  obtain ⟨fin, ended, reset⟩ := framesEnd_reset started.syncBreakpointsToTarget rfl rfl
  have fromTarget : started.targetEnd (MainInput.after .reset).frames = some fin := ended
  have named := (started.pausedAfter_reported_iff (.after .reset) rfl fromTarget).mp
    (reported.1 fin rfl fromTarget)
  exact FramesEnd.not_named_of_reset reset named

end DebugBackend

end VectorDebugger

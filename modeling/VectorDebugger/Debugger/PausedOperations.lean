import Mathlib.Logic.Function.Basic
import VectorDebugger.Debugger.LoopSteps

/-!
# Operations on a paused machine

A step, and a write to memory, to a register or to a port, are meant for a machine that stands
still. The writes go through the queue and test `state_` on the emulation thread, where no frame
can be under way. The `Step` command goes through the queue and tests nothing; `AgentApi::step`
tests `isPaused` on the thread of its client and executes there, with room for a `Run` in between.
-/

namespace VectorDebugger

/-- The backend with all its threads. -/
structure Threads (δ : Type) where
  /-- The backend. -/
  backend : DebugBackend δ
  /-- The emulation thread is inside `executeFrame`. -/
  inFrame : Bool
  /-- The clients that `isPaused` has told that they may step. -/
  checked : Nat → Bool

/-- One step of some thread. -/
inductive ThreadAction
  /-- The emulation thread between two frames, or a flag raised by a client. -/
  | loop (action : LoopAction)
  /-- The emulation thread enters a frame. -/
  | beginFrame (atPoll : Signals)
  /-- And leaves it. -/
  | endFrame
  /-- `loadRom` and `loadWav` clear `running_` on the thread of their client. -/
  | clearRunning
  /-- Then they set `state_` to `Paused`. -/
  | setPaused
  /-- `isPaused` in `AgentApi::step`. -/
  | check (client : Nat)
  /-- `stepInstruction` in `AgentApi::step`. -/
  | use (client : Nat)

/-- The commands meant for a paused machine. -/
def Command.needsPause : Command → Bool
  | .step | .memoryWrite .. | .registerWrite .. | .ioWrite .. => true
  | _ => false

namespace ThreadAction

/-- A step, a write, or the part of one that decides whether it fails. -/
def isOperation : ThreadAction → Bool
  | .loop (.take queued) => queued.command.needsPause
  | .check _ | .use _ => true
  | _ => false

end ThreadAction

namespace DebugBackend

variable {δ : Type}

/-- `processCommand` executes the command: it was neither withdrawn nor is it refused. -/
def Executes (backend : DebugBackend δ) (queued : QueuedCommand) : Prop :=
  queued.withdrawn = false ∧ (backend.quitRequested && queued.command != .quit) = false

/-- A frame is only executed in the state `Running`. -/
def Governed (backend : DebugBackend δ) : Prop :=
  backend.running = true → backend.quitRequested = false → backend.state = .running

end DebugBackend

namespace Threads

variable {δ : Type} [Chips δ]

/-- Before the emulation thread is started. -/
def init (chips : δ) (boot : List Byte) (files : Text → List Byte) : Threads δ where
  backend := .init chips boot files
  inFrame := false
  checked := fun _ => false

/-- The step of one thread, if it can take it. -/
def step (threads : Threads δ) : ThreadAction → Option (Threads δ)
  | .loop (.raise signals) => some { threads with backend := threads.backend.raise signals }
  | .loop (.frame _) => none
  | .loop action =>
    if threads.inFrame then none
    else (threads.backend.loopStep action).map fun backend => { threads with backend }
  | .beginFrame atPoll =>
    if !threads.inFrame && threads.backend.running && !threads.backend.quitRequested then
      some { threads with backend := threads.backend.enterFrame atPoll, inFrame := true }
    else none
  | .endFrame =>
    if threads.inFrame then
      some { threads with backend := threads.backend.executeFrame.2, inFrame := false }
    else none
  | .clearRunning => some { threads with backend := { threads.backend with running := false } }
  | .setPaused => some { threads with backend := { threads.backend with state := .paused } }
  | .check client =>
    some { threads with
      checked := Function.update threads.checked client (threads.backend.state = .paused) }
  | .use client =>
    if threads.checked client then
      some { threads with
        backend := threads.backend.stepInstruction
        checked := Function.update threads.checked client false }
    else none

/-- The request of an operation fails. -/
def Fails (threads : Threads δ) : ThreadAction → Prop
  | .loop (.take queued) => (threads.backend.processCommand queued).outcome.result.success = false
  | .check _ => threads.backend.state ≠ .paused
  | _ => False

/-- An operation acts in the state `Paused` with no frame under way, or it fails and leaves
everything as it was. -/
def OperatesPaused (threads : Threads δ) (action : ThreadAction) (after : Threads δ) : Prop :=
  action.isOperation = true →
    threads.backend.state = .paused ∧ threads.inFrame = false ∨
      threads.Fails action ∧ after.backend = threads.backend

/-- One step of some thread. -/
def Step (threads : Threads δ) (action : ThreadAction) (after : Threads δ) : Prop :=
  threads.step action = some after

/-- What keeps operations and frames apart: a `Step` command is executed in the state `Paused`, a
`Run` command while no client is about to step, and a client that has loaded a program sets
`state_` while nothing runs. -/
def Allowed (threads : Threads δ) : ThreadAction → Prop
  | .loop (.take queued) =>
    threads.backend.Executes queued →
      (queued.command = .step → threads.backend.state = .paused) ∧
        (queued.command = .run → ∀ client, threads.checked client = false)
  | .setPaused => threads.inFrame = false ∧ threads.backend.running = false
  | _ => True

/-- A step of some thread that is allowed. -/
def AllowedStep (threads : Threads δ) (action : ThreadAction) (after : Threads δ) : Prop :=
  threads.Step action after ∧ threads.Allowed action

/-- What allowed steps keep. -/
structure Sound (threads : Threads δ) : Prop where
  /-- Frames are executed in the state `Running`. -/
  governed : threads.backend.Governed
  /-- So they are in that state while they last. -/
  inFrame : threads.inFrame = true → threads.backend.state = .running
  /-- What a client was told still holds. -/
  checked : ∀ client, threads.checked client = true → threads.backend.state = .paused

end Threads

namespace DebugBackend

variable {δ : Type} [Chips δ]

omit [Chips δ] in
theorem enterFrame_steering (backend : DebugBackend δ) (atPoll : Signals) :
    (backend.enterFrame atPoll).steering =
      (backend.state, backend.running, backend.quitRequested || atPoll.quit) := by
  have polled : ∀ backend : DebugBackend δ, backend.poll.steering = backend.steering := by
    intro backend
    unfold poll
    split_ifs <;> rfl
  exact polled _

theorem executeFrame_steering (backend : DebugBackend δ) :
    backend.executeFrame.2.steering = backend.steering := by
  unfold executeFrame steering
  rfl

/-- A command that is not executed changes nothing, and reports that it failed. -/
theorem processCommand_of_not_executes (backend : DebugBackend δ) (queued : QueuedCommand)
    (not : ¬ backend.Executes queued) :
    (backend.processCommand queued).backend = backend ∧
      (backend.processCommand queued).outcome.result.success = false := by
  unfold Executes at not
  unfold processCommand
  cases withdrawn : queued.withdrawn with
  | true => exact ⟨rfl, rfl⟩
  | false =>
    rw [withdrawn] at not
    have refused : (backend.quitRequested && queued.command != .quit) = true := by
      rw [← Bool.not_eq_false]
      exact fun goesOn => not ⟨rfl, goesOn⟩
    rw [if_neg nofun, if_pos refused]
    exact ⟨rfl, rfl⟩

/-- One of the commands that need a pause is executed by `executeCommand` alone. -/
theorem processCommand_of_executes (backend : DebugBackend δ) (queued : QueuedCommand)
    (executes : backend.Executes queued) (needs : queued.command.needsPause = true) :
    (backend.processCommand queued).backend = (backend.executeCommand queued.command).1 ∧
      (backend.processCommand queued).outcome = (backend.executeCommand queued.command).2 := by
  obtain ⟨kept, goesOn⟩ := executes
  unfold processCommand
  rw [kept, if_neg nofun, goesOn, if_neg nofun]
  cases command : queued.command with
  | step | memoryWrite | registerWrite | ioWrite => exact ⟨rfl, rfl⟩
  | _ =>
    rw [command] at needs
    exact absurd needs nofun

/-- Every command keeps frames in the state `Running`, and only `Run` leaves the state
`Paused`. -/
theorem processCommand_governed (backend : DebugBackend δ) (queued : QueuedCommand)
    (governed : backend.Governed) :
    (backend.processCommand queued).backend.Governed ∧
      (backend.state = .paused → (backend.Executes queued → queued.command ≠ .run) →
        (backend.processCommand queued).backend.state = .paused) := by
  by_cases executes : backend.Executes queued
  · have steering : ∀ backend : DebugBackend δ, backend.Governed → ∀ command,
        (backend.executeCommand command).1.Governed ∧
          (backend.state = .paused → command ≠ .run →
            (backend.executeCommand command).1.state = .paused) := by
      intro backend governed command
      have state := congrArg (·.1) (backend.executeCommand_steering command)
      have running := congrArg (·.2.1) (backend.executeCommand_steering command)
      have quit := backend.executeCommand_quitRequested command
      unfold steering at state running
      unfold Governed at *
      rw [quit]
      cases command with
      | run => exact ⟨fun _ _ => state, fun _ other => absurd rfl other⟩
      | reset | restart =>
        exact ⟨fun isRunning => absurd (Eq.trans (Eq.symm running) isRunning) Bool.false_ne_true,
          fun _ _ => state⟩
      | loadRom name org =>
        exact ⟨fun isRunning => absurd (Eq.trans (Eq.symm running) isRunning) Bool.false_ne_true,
          fun paused _ => Eq.trans state paused⟩
      | _ =>
        refine ⟨fun isRunning staying => ?_, fun paused _ => Eq.trans state paused⟩
        exact Eq.trans state (governed (Eq.trans (Eq.symm running) isRunning) staying)
    obtain ⟨kept, goesOn⟩ := executes
    unfold processCommand
    rw [kept, if_neg nofun, goesOn, if_neg nofun]
    cases command : queued.command with
    | quit | pause => exact ⟨fun isRunning => absurd isRunning Bool.false_ne_true, fun _ _ => rfl⟩
    | executeTrace params =>
      have done := steering
        { backend with running := false, state := .paused, pauseRequested := false }
        (fun isRunning => absurd isRunning Bool.false_ne_true) (.executeTrace params)
      exact ⟨done.1, fun _ _ => done.2 rfl nofun⟩
    | _ =>
      have done := steering backend governed queued.command
      rw [command] at done
      exact ⟨done.1, fun paused other => done.2 paused (other ⟨kept, by rw [goesOn]⟩)⟩
  · obtain ⟨same, _⟩ := backend.processCommand_of_not_executes queued executes
    rw [same]
    exact ⟨governed, fun paused _ => paused⟩

omit [Chips δ] in
theorem Governed.of_steering {backend after : DebugBackend δ} (governed : backend.Governed)
    (same : after.steering = backend.steering) : after.Governed := by
  have state : after.state = backend.state := congrArg (·.1) same
  have running : after.running = backend.running := congrArg (·.2.1) same
  have quit : after.quitRequested = backend.quitRequested := congrArg (·.2.2) same
  unfold Governed
  rw [state, running, quit]
  exact governed

/-- So does every step of the loop. -/
theorem loopStep_governed {backend after : DebugBackend δ} {action : LoopAction}
    (step : backend.loopStep action = some after) (governed : backend.Governed) :
    after.Governed ∧
      (backend.state = .paused →
        (∀ queued, action = .take queued → backend.Executes queued → queued.command ≠ .run) →
        after.state = .paused) := by
  have unchanged : after.steering = backend.steering →
      after.Governed ∧ (backend.state = .paused →
        (∀ queued, action = .take queued → backend.Executes queued → queued.command ≠ .run) →
        after.state = .paused) := fun same =>
    ⟨governed.of_steering same, fun paused _ => Eq.trans (congrArg (·.1) same) paused⟩
  unfold loopStep at step
  cases action with
  | raise signals =>
    cases step
    refine ⟨fun running staying => governed running ?_, fun paused _ => paused⟩
    exact (Bool.or_eq_false_iff.mp staying).1
  | resume =>
    obtain ⟨_, same⟩ := Option.ite_none_right_eq_some.mp step
    cases same
    exact unchanged (resumeFrames_keeps steering (fun _ => rfl) (fun _ _ => rfl)
      stepInstruction_steering backend)
  | frame atPoll =>
    obtain ⟨_, same⟩ := Option.ite_none_right_eq_some.mp step
    cases same
    have steering := ((backend.enterFrame atPoll).executeFrame_steering).trans
      (backend.enterFrame_steering atPoll)
    have state : _ = backend.state := congrArg (·.1) steering
    have running : _ = backend.running := congrArg (·.2.1) steering
    have quit : _ = (backend.quitRequested || atPoll.quit) := congrArg (·.2.2) steering
    refine ⟨fun isRunning staying => state.trans (governed (running.symm.trans isRunning) ?_),
      fun paused _ => state.trans paused⟩
    exact (Bool.or_eq_false_iff.mp (quit.symm.trans staying)).1
  | stop stuck =>
    dsimp only at step
    split_ifs at step <;>
      · cases step
        exact ⟨fun running => absurd running Bool.false_ne_true, fun _ _ => rfl⟩
  | leave =>
    dsimp only at step
    split_ifs at step with running
    cases step
    exact ⟨fun isRunning => absurd isRunning running, fun _ _ => rfl⟩
  | quitFrames =>
    obtain ⟨_, same⟩ := Option.ite_none_right_eq_some.mp step
    cases same
    exact unchanged rfl
  | quit =>
    obtain ⟨quit, same⟩ := Option.ite_none_right_eq_some.mp step
    cases same
    refine ⟨fun _ staying => ?_, fun _ _ => rfl⟩
    rw [quit] at staying
    cases staying
  | take queued =>
    cases step
    obtain ⟨kept, paused⟩ := backend.processCommand_governed queued governed
    exact ⟨kept, fun isPaused others => paused isPaused (others queued rfl)⟩

end DebugBackend

namespace Threads

variable {δ : Type} [Chips δ]

omit [Chips δ] in
theorem init_sound (chips : δ) (boot : List Byte) (files : Text → List Byte) :
    (init chips boot files).Sound :=
  ⟨nofun, nofun, nofun⟩

/-- The emulation thread works between two frames; only flags are raised at any time. -/
theorem step_loop {threads after : Threads δ} {action : LoopAction}
    (step : threads.step (.loop action) = some after) :
    ∃ middle, threads.backend.loopStep action = some middle ∧
      after = { threads with backend := middle } ∧
      (threads.inFrame = false ∨ ∃ signals, action = .raise signals) := by
  cases action with
  | raise signals =>
    cases step
    exact ⟨_, rfl, rfl, .inr ⟨signals, rfl⟩⟩
  | frame atPoll => cases step
  | _ =>
    obtain ⟨outside, step⟩ := Option.ite_none_left_eq_some.mp step
    obtain ⟨middle, moved, rfl⟩ := Option.map_eq_some_iff.mp step
    exact ⟨middle, moved, rfl, .inl (Bool.eq_false_of_not_eq_true outside)⟩

/-- One step of some thread. -/
theorem Sound.step {threads after : Threads δ} {action : ThreadAction} (sound : threads.Sound)
    (allowed : threads.AllowedStep action after) : after.Sound := by
  obtain ⟨step, allowed⟩ := allowed
  obtain ⟨governed, inFrame, checked⟩ := sound
  cases action with
  | loop action =>
    obtain ⟨middle, moved, rfl, outside⟩ := step_loop step
    obtain ⟨kept, paused⟩ := DebugBackend.loopStep_governed moved governed
    refine ⟨kept, fun inside => ?_, fun client told => ?_⟩
    · rcases outside with outside | ⟨signals, rfl⟩
      · exact absurd (outside.symm.trans inside) Bool.false_ne_true
      · cases moved
        exact inFrame inside
    · refine paused (checked client told) fun queued same executes isRun => ?_
      subst same
      have notTold := (allowed executes).2 isRun client
      exact absurd (notTold.symm.trans told) Bool.false_ne_true
  | beginFrame atPoll =>
    obtain ⟨enters, same⟩ := Option.ite_none_right_eq_some.mp step
    cases same
    simp only [Bool.and_eq_true, Bool.not_eq_true'] at enters
    obtain ⟨⟨-, running⟩, staying⟩ := enters
    have isRunning := governed running staying
    have steering := threads.backend.enterFrame_steering atPoll
    have state : (threads.backend.enterFrame atPoll).state = .running :=
      Eq.trans (congrArg (·.1) steering) isRunning
    refine ⟨fun _ _ => state, fun _ => state, fun client told => ?_⟩
    exact absurd (isRunning.symm.trans (checked client told)) nofun
  | endFrame =>
    obtain ⟨inside, same⟩ := Option.ite_none_right_eq_some.mp step
    cases same
    have steering := threads.backend.executeFrame_steering
    refine ⟨governed.of_steering steering, nofun, fun client told => ?_⟩
    exact absurd ((inFrame inside).symm.trans (checked client told)) nofun
  | clearRunning =>
    cases step
    exact ⟨fun running => absurd running Bool.false_ne_true, inFrame, checked⟩
  | setPaused =>
    cases step
    obtain ⟨outside, stopped⟩ := allowed
    exact ⟨fun running => absurd (stopped.symm.trans running) Bool.false_ne_true,
      fun inside => absurd (outside.symm.trans inside) Bool.false_ne_true, fun _ _ => rfl⟩
  | check client =>
    cases step
    refine ⟨governed, inFrame, fun other told => ?_⟩
    dsimp only at told
    by_cases same : other = client
    · rw [same, Function.update_self] at told
      exact of_decide_eq_true told
    · rw [Function.update_of_ne same] at told
      exact checked other told
  | use client =>
    obtain ⟨told, same⟩ := Option.ite_none_right_eq_some.mp step
    cases same
    have steering := threads.backend.stepInstruction_steering
    have state : threads.backend.stepInstruction.state = threads.backend.state :=
      congrArg (·.1) steering
    refine ⟨governed.of_steering steering, fun inside => state.trans (inFrame inside),
      fun _ _ => state.trans (checked client told)⟩

omit [Chips δ] in
/-- A write that is executed while the debugger runs fails and changes nothing. -/
theorem whenPaused_of_running (backend : DebugBackend δ) (error : Text) (done : DebugBackend δ)
    (running : backend.state ≠ .paused) :
    backend.whenPaused error done = (backend, .failed error) :=
  if_neg running

/-- A command meant for a paused machine acts on one, or fails, unless it is a `Step` executed
while the debugger runs. -/
theorem take_operatesPaused {threads after : Threads δ} {queued : QueuedCommand}
    (step : threads.step (.loop (.take queued)) = some after)
    (steps : threads.backend.Executes queued → queued.command = .step →
      threads.backend.state = .paused) :
    threads.OperatesPaused (.loop (.take queued)) after := by
  intro needs
  obtain ⟨middle, moved, rfl, outside⟩ := step_loop step
  have here : threads.inFrame = false := by
    rcases outside with outside | ⟨signals, other⟩
    · exact outside
    · cases other
  cases moved
  by_cases paused : threads.backend.state = .paused
  · exact .inl ⟨paused, here⟩
  · refine .inr ?_
    by_cases executes : threads.backend.Executes queued
    · obtain ⟨backend, outcome⟩ := threads.backend.processCommand_of_executes queued executes needs
      unfold Fails
      dsimp only
      rw [backend, outcome]
      have notStep := fun isStep => paused (steps executes isStep)
      unfold DebugBackend.executeCommand
      cases command : queued.command with
      | step => exact absurd command notStep
      | memoryWrite | registerWrite | ioWrite =>
        dsimp only
        rw [whenPaused_of_running _ _ _ paused]
        exact ⟨rfl, rfl⟩
      | _ =>
        rw [ThreadAction.isOperation, command] at needs
        exact absurd needs nofun
    · obtain ⟨same, failed⟩ := threads.backend.processCommand_of_not_executes queued executes
      exact ⟨failed, same⟩

/-- However the threads interleave, as long as their steps are allowed, every operation acts on a
machine that stands still, or fails and changes nothing. -/
theorem operations_paused {chips : δ} {boot : List Byte} {files : Text → List Byte}
    {labels : List ThreadAction} {final after : Threads δ} {action : ThreadAction}
    (run : Transition.Run AllowedStep (init chips boot files) labels final)
    (allowed : final.AllowedStep action after) : final.OperatesPaused action after := by
  have sound : final.Sound :=
    run.invariant (fun _ _ _ sound step => sound.step step) (init_sound chips boot files)
  obtain ⟨step, condition⟩ := allowed
  cases action with
  | loop action =>
    cases action with
    | take queued => exact take_operatesPaused step fun executes => (condition executes).1
    | _ => exact nofun
  | check client =>
    intro _
    by_cases paused : final.backend.state = .paused
    · refine .inl ⟨paused, Bool.eq_false_of_not_eq_true fun inside => ?_⟩
      exact absurd ((sound.inFrame inside).symm.trans paused) nofun
    · cases step
      exact .inr ⟨paused, rfl⟩
  | use client =>
    intro _
    obtain ⟨told, -⟩ := Option.ite_none_right_eq_some.mp step
    have paused := sound.checked client told
    refine .inl ⟨paused, Bool.eq_false_of_not_eq_true fun inside => ?_⟩
    exact absurd ((sound.inFrame inside).symm.trans paused) nofun
  | _ => exact nofun

/-- What the emulation thread does in its loops it does here too, with the frames taken apart. -/
theorem run_of_reaches {checked : Nat → Bool} {backend after : DebugBackend δ}
    (reaches : backend.Reaches after) :
    ∃ labels, Transition.Run Step { backend, inFrame := false, checked } labels
      { backend := after, inFrame := false, checked } := by
  have moves : ∀ {backend middle : DebugBackend δ} (action : LoopAction),
      backend.loopStep action = some middle → (∀ atPoll, action ≠ .frame atPoll) →
        Step { backend, inFrame := false, checked } (.loop action)
          { backend := middle, inFrame := false, checked } := by
    intro backend middle action moved other
    cases action with
    | frame atPoll => exact absurd rfl (other atPoll)
    | raise signals | take queued =>
      cases moved
      rfl
    | _ => exact congrArg (Option.map _) moved
  obtain ⟨actions, run⟩ := reaches
  induction run with
  | nil backend => exact ⟨[], .nil _⟩
  | cons step rest inductionHypothesis =>
    rename_i backend middle after action actions
    obtain ⟨labels, later⟩ := inductionHypothesis
    unfold DebugBackend.LoopStep at step
    cases action with
    | raise signals => exact ⟨_, .cons (moves (.raise signals) step nofun) later⟩
    | frame atPoll =>
      obtain ⟨enters, same⟩ := Option.ite_none_right_eq_some.mp step
      cases same
      have begins : Step { backend, inFrame := false, checked } (.beginFrame atPoll)
          { backend := backend.enterFrame atPoll, inFrame := true, checked } := if_pos enters
      have ends : Step { backend := backend.enterFrame atPoll, inFrame := true, checked } .endFrame
          { backend := (backend.enterFrame atPoll).executeFrame.2, inFrame := false, checked } :=
        rfl
      exact ⟨_, .cons begins (.cons ends later)⟩
    | resume => exact ⟨_, .cons (moves .resume step nofun) later⟩
    | stop stuck => exact ⟨_, .cons (moves (.stop stuck) step nofun) later⟩
    | leave => exact ⟨_, .cons (moves .leave step nofun) later⟩
    | quitFrames => exact ⟨_, .cons (moves .quitFrames step nofun) later⟩
    | quit => exact ⟨_, .cons (moves .quit step nofun) later⟩
    | take queued => exact ⟨_, .cons (moves (.take queued) step nofun) later⟩

/-- A new debugger that runs nothing. -/
def idle : Threads Unit := init () [] fun _ => []

/-- A client checks and steps. -/
theorem operations_paused_idle :
    ∃ labels final after, Transition.Run AllowedStep idle labels final ∧
      final.AllowedStep (.use 0) after ∧ final.OperatesPaused (.use 0) after := by
  have run : Transition.Run AllowedStep idle [.check 0] _ := .cons ⟨rfl, trivial⟩ (.nil _)
  exact ⟨_, _, _, run, ⟨rfl, trivial⟩, operations_paused run ⟨rfl, trivial⟩⟩

/-- `Run` from the queue. -/
def takeRun : ThreadAction := .loop (.take { command := .run, withdrawn := false })

/-- A `Step` command is executed while the debugger runs, and a client that has found the debugger
paused steps in the middle of a frame. -/
theorem operations_while_running :
    (∃ final after, Transition.Run Step idle [takeRun] final ∧
      final.Step (.loop (.take { command := .step, withdrawn := false })) after ∧
      ¬ final.OperatesPaused (.loop (.take { command := .step, withdrawn := false })) after) ∧
    ∃ final after,
      Transition.Run Step idle [.check 0, takeRun, .beginFrame .none] final ∧
      final.Step (.use 0) after ∧ ¬ final.OperatesPaused (.use 0) after := by
  constructor
  · refine ⟨_, _, .cons rfl (.nil _), rfl, fun operates => ?_⟩
    rcases operates rfl with ⟨paused, _⟩ | ⟨failed, _⟩
    · exact absurd paused nofun
    · exact absurd (failed : true = false) nofun
  · refine ⟨_, _, .cons rfl (.cons rfl (.cons rfl (.nil _))), rfl, fun operates => ?_⟩
    rcases operates rfl with ⟨paused, _⟩ | ⟨failed, _⟩
    · exact absurd paused nofun
    · exact failed

end Threads

end VectorDebugger

import VectorDebugger.Debugger.Breakpoints
import VectorDebugger.Machine.Alike

/-!
# Running with breakpoints and without

A program run through breakpoints, each stop followed by a `Run` command, against the same program
run by `execute_frame` alone. A stop within a frame leaves the machine as it is, and so does the
step that resumes it; but the frame is then entered again from its start. The two runs agree as
long as no resumed frame notices.
-/

namespace VectorDebugger

namespace Board

variable {δ : Type} [Chips δ]

/-- The resume from this stop does not disturb the program: the stop is within a frame, and the
step over the breakpoint ends the frame or leaves it where it can be entered again. -/
structure ResumesClean (stopped : Board δ) : Prop where
  /-- The stop is not at the end of a frame, where an interrupt would be accepted first. -/
  inFrame : stopped.beam.brk = false
  /-- What the step leaves. -/
  resumed : (stopped.singleStep true).beam.brk = true ∨ (stopped.singleStep true).EntersAgain

instance (board : Board δ) : Decidable board.EntersAgain :=
  decidable_of_iff (board.beam.rasterLine = 0 ∧ board.irqCarry = false ∧
      board.acceptsInterrupt = false ∧ 60 < board.frameNo)
    ⟨fun ⟨line, carry, calm, tape⟩ => ⟨line, carry, calm, tape⟩,
      fun ⟨line, carry, calm, tape⟩ => ⟨line, carry, calm, tape⟩⟩

instance (stopped : Board δ) : Decidable stopped.ResumesClean :=
  decidable_of_iff (stopped.beam.brk = false ∧
      ((stopped.singleStep true).beam.brk = true ∨ (stopped.singleStep true).EntersAgain))
    ⟨fun ⟨inFrame, resumed⟩ => ⟨inFrame, resumed⟩, fun ⟨inFrame, resumed⟩ => ⟨inFrame, resumed⟩⟩

end Board

namespace DebugBackend

/-- A pass of the frame loop that no other thread disturbs. -/
def FrameInput.idle : FrameInput where
  before := .none
  atPoll := .none
  commands := []
  after := .none

/-- A pass of the main loop in which nothing happens for `count` frames and, once the frame loop
has returned, a `Run` command resumes. -/
def MainInput.resume (count : Nat) : MainInput where
  frames := List.replicate count .idle
  before := .none
  command := (.none, { command := .run, withdrawn := false })

variable {δ : Type}

/-- The board at each instruction, in order. -/
def FramesRun.executed (run : FramesRun δ) : List (Board δ) :=
  (run.skipped.map (·.target.board)).toList ++ run.passes.flatMap (·.executed)

/-- The board at each instruction, in order. -/
def MainRun.executed (run : MainRun δ) : List (Board δ) := run.runs.flatMap (·.executed)

/-- No flag is raised. -/
structure Quiet (backend : DebugBackend δ) : Prop where
  /-- No quit request. -/
  quit : backend.quitRequested = false
  /-- No break request. -/
  brk : backend.breakRequested = false
  /-- No pause request. -/
  pause : backend.pauseRequested = false

/-- Ready to run: quiet, running, attached, with the breakpoints of the board known. -/
structure Ready (backend : DebugBackend δ) : Prop extends Quiet backend where
  /-- `running_` is set. -/
  running : backend.running = true
  /-- Adapter and board agree. -/
  board : backend.target.BoardSynced
  /-- The board checks breakpoints at all. -/
  debugging : backend.target.board.debugging = true

/-- The board with nothing that could stop it. -/
def undebugged (backend : DebugBackend δ) : Board δ :=
  { backend.target.board with breakpoints := [], debuggerInterrupt := false }

theorem raise_none (backend : DebugBackend δ) : backend.raise .none = backend := by
  unfold raise Signals.none
  simp only [Bool.or_false]

variable [Chips δ]

/-- A stop of the frame loop on a breakpoint, where a free run is at `board`. -/
structure StoppedAt (backend : DebugBackend δ) (board : Board δ) : Prop extends Quiet backend where
  /-- The breakpoints are in step. -/
  synced : backend.Synced
  /-- The program counter is on one of them. -/
  found : backend.checkBreakpoint = true
  /-- The instruction there is the next of the free run, unless a frame has just ended. -/
  here : backend.target.board.beam.brk = true ∨ board.beginIteration.Begun backend.target.board

/-- One undisturbed pass of the frame loop. -/
theorem frames_idle (inputs : List FrameInput) (backend : DebugBackend δ) (quiet : backend.Quiet)
    (running : backend.running = true) :
    let polled := { backend with target := backend.target.debuggerContinue }
    let left := polled.executeFrame.2
    let rest :=
      if left.checkBreakpoint then left.stopOnBreakpoint.leaveFrames else frames inputs left
    frames (.idle :: inputs) backend =
      { rest with
        passes :=
          { entered := polled, executed := polled.executeFrame.1, left
            stopped := if left.checkBreakpoint then some left.stopOnBreakpoint else none } ::
            rest.passes } := by
  intro polled left rest
  have polledEq : backend.enterFrame .none = polled := by
    unfold enterFrame
    rw [raise_none]
    unfold poll
    rw [if_neg (by simp [quiet.quit]), if_neg (by simp [quiet.brk]),
      if_neg (by simp [quiet.pause, running])]
  have stays :
      (polled.executeFrame.2.pauseRequested || !polled.executeFrame.2.running) = false := by
    change (backend.pauseRequested || !backend.running) = false
    rw [quiet.pause, running]
    rfl
  conv_lhs => unfold frames
  rw [if_neg (by simp [running])]
  dsimp only [FrameInput.idle]
  rw [raise_none, if_neg (by simp [quiet.quit]), polledEq]
  unfold drainCommands
  rw [raise_none]
  simp only [stays, Bool.not_false, Bool.or_true, Bool.and_true, Bool.false_eq_true, if_false]
  rfl

omit [Chips δ] in
/-- A breakpoint of the board is one of the backend. -/
theorem checkBreakpoint_of_stops {backend : DebugBackend δ} (synced : backend.Synced)
    (found : backend.target.board.checkBreakpoint = true) : backend.checkBreakpoint = true := by
  rw [checkBreakpoint_iff, ← synced.enabled, ← synced.board]
  unfold Board.checkBreakpoint at found
  exact List.contains_iff_mem.mp found

/-- Undisturbed passes of the frame loop follow a free run up to a stop on a breakpoint. -/
theorem frames_follow (count : Nat) :
    ∀ {backend : DebugBackend δ} {board : Board δ}, backend.Quiet → backend.running = true →
      backend.Synced → board.Alike backend.target.board.startFrame →
      let run := frames (List.replicate count .idle) backend
      let executed := run.passes.flatMap (·.executed)
      board.Follows executed ∧
        (run.finished = true → run.backend.StoppedAt (Board.advance^[executed.length] board)) := by
  induction count with
  | zero =>
    intro backend board quiet running synced same
    unfold List.replicate frames
    rw [if_pos running]
    exact ⟨.nil board, fun finished => absurd finished Bool.false_ne_true⟩
  | succ count inductionHypothesis =>
    intro backend board quiet running synced same run executed
    have runEq := frames_idle (List.replicate count .idle) backend quiet running
    set polled : DebugBackend δ :=
      { backend with target := backend.target.debuggerContinue } with polledEq
    dsimp only at runEq
    have ran := polled.executeFrame_run rfl
    have kept : polled.executeFrame.2.Synced :=
      (synced.of_same ⟨rfl, rfl, rfl, rfl⟩ : polled.Synced).of_same polled.executeFrame_same
    have calm : polled.executeFrame.2.Quiet := ⟨quiet.quit, quiet.brk, quiet.pause⟩
    have alive : polled.executeFrame.2.running = true := running
    obtain ⟨follows, next⟩ := ran.follows rfl (same.debugger false backend.target.board.breakpoints)
    generalize polled.executeFrame.1 = front at ran follows next runEq
    generalize polled.executeFrame.2 = left at ran kept calm alive runEq
    have runEq' : run = _ := runEq
    have listed : executed = front ++
        (if left.checkBreakpoint then left.stopOnBreakpoint.leaveFrames
        else frames (List.replicate count .idle) left).passes.flatMap (·.executed) := by
      change run.passes.flatMap (·.executed) = _
      rw [runEq', List.flatMap_cons]
    have stop : left.checkBreakpoint = true →
        (left.target.board.beam.brk = true ∨
          (Board.advance^[front.length] board).beginIteration.Begun left.target.board) →
        board.Follows executed ∧
          (run.finished = true →
            run.backend.StoppedAt (Board.advance^[executed.length] board)) := by
      intro hit here
      have nothing : left.stopOnBreakpoint.leaveFrames.passes = [] := rfl
      rw [hit, if_pos rfl, nothing, List.flatMap_nil, List.append_nil] at listed
      rw [listed, runEq', hit, if_pos rfl]
      exact ⟨follows, fun _ => ⟨⟨calm.quit, calm.brk, calm.pause⟩,
        kept.of_same ⟨rfl, rfl, rfl, rfl⟩, hit, here⟩⟩
    rcases ran.stop rfl with ⟨whole, ended⟩ | ⟨head, headEq, within, found, stopped⟩
    · cases hit : left.checkBreakpoint with
      | true => exact stop hit (.inl ended)
      | false =>
        rw [← whole, Board.entered_of_ended _ ended] at next
        rw [hit, if_neg Bool.false_ne_true] at listed runEq'
        obtain ⟨later, stops⟩ := inductionHypothesis calm alive kept next
        rw [listed, runEq', List.length_append, Nat.add_comm, Function.iterate_add_apply]
        exact ⟨follows.append later, stops⟩
    · have hit : left.checkBreakpoint = true := by
        apply checkBreakpoint_of_stops kept
        unfold Board.stopsAtBreakpoint at found
        rw [stopped]
        exact (Bool.and_eq_true _ _ ▸ found).2
      apply stop hit
      right
      rw [← headEq, head.entered_of_running within] at next
      rw [stopped]
      exact next.begun.debugger true _

/-- How `executeFramesTarget_` is entered, where a free run is at `board`. -/
inductive Enters (backend : DebugBackend δ) (board : Board δ) : Prop
  /-- At the start of the run. -/
  | start (fresh : backend.skipBreakpoint = false)
      (same : board.Alike backend.target.board.startFrame)
  /-- By a `Run` command after a stop. -/
  | resume (skips : backend.skipBreakpoint = true) (stopped : backend.StoppedAt board)

/-- A step over a breakpoint, from which the frame is entered again. -/
theorem resumed_alike {stopped board : Board δ} (clean : stopped.ResumesClean)
    (same : board.beginIteration.Begun stopped) :
    board.advance.Alike (stopped.singleStep true).startFrame := by
  have left := same.left true true
  change (board.pass true).Left (stopped.singleStep true) at left
  cases ended : (stopped.singleStep true).beam.brk with
  | true =>
    have next := left.entered
    rw [Board.entered_of_ended _ ended] at next
    exact next
  | false =>
    have spent := ((stopped.singleStep_spec true).2.2.1 ended).1
    have again := clean.resumed.resolve_left (by rw [ended]; exact Bool.false_ne_true)
    have next := left.entered_again ended spent again
    unfold Board.advance
    rw [Board.entered_of_running _ (by rw [left.beam, ended])]
    exact next

/-- A run of the frame loop follows a free run up to its stop. -/
theorem executeFramesTarget_follow (count : Nat) {backend : DebugBackend δ} {board : Board δ}
    (ready : backend.Ready) (enters : backend.Enters board)
    (clean : ∀ stopped ∈ (backend.executeFramesTarget (List.replicate count .idle)).skipped,
      stopped.target.board.ResumesClean) :
    let run := backend.executeFramesTarget (List.replicate count .idle)
    board.Follows run.executed ∧
      (run.finished = true →
        run.backend.StoppedAt (Board.advance^[run.executed.length] board)) := by
  intro run
  have sent := backend.syncBreakpointsToTarget_synced ready.board ready.debugging
  obtain ⟨breakpoints, whole⟩ := backend.target.syncBreakpoints_board
    ((backend.breakpoints.map (·.2)).filter (·.enabled))
  change backend.syncBreakpointsToTarget.target.board = _ at whole
  have runEq : run = backend.executeFramesTarget (List.replicate count .idle) := rfl
  unfold executeFramesTarget at runEq clean
  dsimp only at runEq clean
  cases enters with
  | start fresh same =>
    rw [if_neg (by simp [syncBreakpointsToTarget, fresh])] at runEq
    have started : board.Alike backend.syncBreakpointsToTarget.target.board.startFrame := by
      rw [whole]
      exact same.debugger backend.target.board.debuggerInterrupt breakpoints
    have follows := @frames_follow δ _ count backend.syncBreakpointsToTarget _
      ⟨ready.quit, ready.brk, ready.pause⟩ ready.running sent started
    have unskipped := (frames_sound (List.replicate count .idle) _ sent).1
    unfold FramesRun.executed
    rw [runEq, unskipped]
    exact follows
  | resume skips stopped =>
    have found : backend.syncBreakpointsToTarget.checkBreakpoint = true := by
      have here := stopped.found
      unfold checkBreakpoint DebugAdapter.pc at here ⊢
      rw [whole]
      exact here
    rw [if_pos (by rw [found, Bool.and_true]; exact skips)] at runEq clean
    have clean : backend.syncBreakpointsToTarget.target.board.ResumesClean := clean _ rfl
    have here : board.beginIteration.Begun backend.syncBreakpointsToTarget.target.board := by
      have inFrame := clean.inFrame
      rw [whole] at inFrame ⊢
      exact (stopped.here.resolve_left (by
        rw [show backend.target.board.beam.brk = false from inFrame]
        exact Bool.false_ne_true)).debugger backend.target.board.debuggerInterrupt breakpoints
    have released : Synced { backend.syncBreakpointsToTarget with skipBreakpoint := false } :=
      sent.of_same ⟨rfl, rfl, rfl, rfl⟩
    have quiet : Quiet { backend.syncBreakpointsToTarget with skipBreakpoint := false } :=
      ⟨ready.quit, ready.brk, ready.pause⟩
    have running :
        { backend.syncBreakpointsToTarget with skipBreakpoint := false }.running = true :=
      ready.running
    have resumed := resumed_alike clean here
    change board.advance.Alike ({ backend.syncBreakpointsToTarget with
      skipBreakpoint := false }.target.board.singleStep true).startFrame at resumed
    generalize { backend.syncBreakpointsToTarget with skipBreakpoint := false } = entered
      at released quiet running resumed runEq
    rw [← stepInstruction_board entered] at resumed
    obtain ⟨follows, stops⟩ := @frames_follow δ _ count entered.stepInstruction _
      ⟨quiet.quit, quiet.brk, quiet.pause⟩ running (released.of_same entered.stepInstruction_same)
      resumed
    unfold FramesRun.executed
    rw [runEq]
    exact ⟨follows.cons here.agrees, stops⟩

theorem processCommand_run (backend : DebugBackend δ) (quit : backend.quitRequested = false) :
    (backend.processCommand { command := .run, withdrawn := false }).backend =
      backend.beginRun := by
  unfold processCommand
  simp [quit, executeCommand]

/-- A `Run` command after a stop. -/
theorem beginRun_enters {backend : DebugBackend δ} {board : Board δ}
    (stopped : backend.StoppedAt board) :
    backend.beginRun.Ready ∧ backend.beginRun.Enters board := by
  refine ⟨⟨⟨stopped.quit, stopped.brk, rfl⟩, rfl, stopped.synced.board, stopped.synced.debugging⟩,
    .resume stopped.found ⟨⟨stopped.quit, stopped.brk, rfl⟩, ?_, stopped.found, stopped.here⟩⟩
  exact stopped.synced.of_same ⟨rfl, rfl, rfl, rfl⟩

/-- A run of the main loop that is resumed after every stop follows a free run. -/
theorem mainLoop_follow (counts : List Nat) :
    ∀ {backend : DebugBackend δ} {board : Board δ}, backend.Ready → backend.Enters board →
      (∀ run ∈ (mainLoop (counts.map .resume) backend).runs, ∀ stopped ∈ run.skipped,
        stopped.target.board.ResumesClean) →
      board.Follows (mainLoop (counts.map .resume) backend).executed := by
  induction counts with
  | nil => exact fun _ _ _ => .nil _
  | cons count counts inductionHypothesis =>
    intro backend board ready enters clean
    unfold MainRun.executed
    rw [List.map_cons] at clean ⊢
    unfold mainLoop at clean ⊢
    dsimp only [MainInput.resume] at clean ⊢
    rw [if_pos ready.running] at clean ⊢
    have leg := executeFramesTarget_follow count ready enters
    generalize backend.executeFramesTarget (List.replicate count .idle) = run at leg clean ⊢
    cases finished : run.finished with
    | false =>
      rw [finished] at clean
      obtain ⟨follows, _⟩ := leg (clean run List.mem_cons_self)
      simpa using follows
    | true =>
      rw [finished, Bool.not_true, if_neg Bool.false_ne_true] at clean
      rw [Bool.not_true, if_neg Bool.false_ne_true]
      rw [raise_none, raise_none] at clean ⊢
      obtain ⟨follows, stops⟩ := leg (clean run (by split <;> exact List.mem_cons_self))
      have stopped := stops finished
      rw [stopped.quit, if_neg Bool.false_ne_true] at clean ⊢
      rw [processCommand_run _ stopped.quit] at clean ⊢
      obtain ⟨ready', enters'⟩ := beginRun_enters stopped
      have later := inductionHypothesis ready' enters' fun next listed =>
        clean next (List.mem_cons_of_mem run listed)
      rw [List.flatMap_cons]
      exact follows.append later

/-- Breakpoints are transparent while every resume is clean. Whatever the program and the set of
breakpoints, a run that is resumed by `Run` commands after its stops executes the instructions of
`execute_frame` without breakpoints, and leaves the same machine and the same beam after each. -/
theorem breakpoints_transparent (backend : DebugBackend δ) (frameCount : Nat) (counts : List Nat)
    (ready : backend.Ready) (fresh : backend.skipBreakpoint = false)
    (clean : ∀ run ∈ (mainLoop (counts.map .resume) backend).runs, ∀ stopped ∈ run.skipped,
      stopped.target.board.ResumesClean) :
    ∀ pair ∈ (Board.runFrames frameCount backend.undebugged).1.zip
      (mainLoop (counts.map .resume) backend).executed, pair.1.AgreesWith pair.2 := by
  have free := @Board.runFrames_follows δ _ frameCount backend.undebugged.startFrame
    backend.undebugged rfl rfl (.refl _)
  have started : backend.undebugged.startFrame.Alike backend.target.board.startFrame :=
    (Board.Alike.refl _).debugger backend.target.board.debuggerInterrupt
      backend.target.board.breakpoints
  have resumed := mainLoop_follow counts ready (.start fresh started) clean
  intro pair listed
  obtain ⟨i, below, here⟩ := List.getElem_of_mem listed
  rw [List.getElem_zip] at here
  rw [← here]
  rw [List.length_zip, Nat.lt_min] at below
  exact (free i below.1).symm.trans (resumed i below.2)

/-- A backend over empty memory with the given breakpoints, some frames after power-on, about to
run with the beam at the given pixel. -/
def aboutToRun (pixel : Nat) (below : pixel < 768) (even : pixel % 2 = 0) (addresses : List Word) :
    DebugBackend Unit :=
  let backend := init () [] fun _ => []
  { backend with
    running := true
    breakpoints := addresses.zipIdx.map fun entry =>
      (entry.2, { address := entry.1, enabled := true })
    target :=
      { backend.target with
        board :=
          { backend.target.board with
            frameNo := 100
            debugging := true
            beam := { backend.target.board.beam with
              rasterPixel := pixel, pixel_lt := below, pixel_even := even } } } }

theorem aboutToRun_ready (pixel : Nat) (below : pixel < 768) (even : pixel % 2 = 0)
    (addresses : List Word) : (aboutToRun pixel below even addresses).Ready := by
  refine ⟨⟨rfl, rfl, rfl⟩, rfl, fun addr => ?_, rfl⟩
  simp [aboutToRun, init, Board.powerOn]

/-- The conditions of `breakpoints_transparent` hold of two stops on the first line. -/
theorem breakpoints_transparent_firstLine :
    ((Board.runFrames 1 (aboutToRun 0 (by decide) rfl [1, 3]).undebugged).1.zip
      (mainLoop ([1, 1].map .resume) (aboutToRun 0 (by decide) rfl [1, 3])).executed).Forall
        fun pair => pair.1.AgreesWith pair.2 := by
  rw [List.forall_iff_forall_mem]
  apply breakpoints_transparent _ 1 [1, 1] (aboutToRun_ready 0 (by decide) rfl [1, 3]) rfl
  decide

/-- When the two runs agree, each instruction of the second is that of a free run. -/
theorem nth_agrees (backend : DebugBackend δ) (executed : List (Board δ)) (i : Nat)
    (long : i < (Board.runFrames 1 backend.undebugged).1.length)
    (agree : ∀ pair ∈ (Board.runFrames 1 backend.undebugged).1.zip executed,
      pair.1.AgreesWith pair.2)
    (begun : Board δ) (listed : executed[i]? = some begun) :
    (Board.advance^[i] backend.undebugged.startFrame).beginIteration.AgreesWith begun := by
  have free := @Board.runFrames_follows δ _ 1 backend.undebugged.startFrame
    backend.undebugged rfl rfl (.refl _)
  obtain ⟨within, rfl⟩ := List.getElem?_eq_some_iff.mp listed
  refine (free i long).trans (agree ((Board.runFrames 1 backend.undebugged).1[i], executed[i]) ?_)
  exact List.mem_iff_getElem.mpr
    ⟨i, by rw [List.length_zip]; exact Nat.lt_min.mpr ⟨long, within⟩, List.getElem_zip⟩

/-- A resume on the second line: the third `NOP` ends on line one without breakpoints, and on line
zero with them. -/
theorem resume_moves_beam :
    let backend := aboutToRun 760 (by decide) rfl [1, 3]
    backend.Ready ∧ backend.skipBreakpoint = false ∧
      ¬ ∀ pair ∈ (Board.runFrames 1 backend.undebugged).1.zip
        (mainLoop ([1, 1].map .resume) backend).executed, pair.1.AgreesWith pair.2 := by
  intro backend
  refine ⟨aboutToRun_ready 760 (by decide) rfl [1, 3], rfl, fun agree => ?_⟩
  have long : 2 < (Board.runFrames 1 backend.undebugged).1.length :=
    Board.runFrames_length rfl rfl 2 (by decide)
  have third : (mainLoop ([1, 1].map .resume) backend).executed[2]?.map
      (fun begun => (begun.singleStep true).beam.rasterLine) = some 0 := by decide
  obtain ⟨last, listed, line⟩ := Option.map_eq_some_iff.mp third
  have same := nth_agrees backend _ 2 long agree last listed
  have place := same.line.trans line
  exact absurd place (by decide)

end DebugBackend

end VectorDebugger

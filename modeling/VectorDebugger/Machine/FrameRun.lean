import VectorDebugger.Machine.BeamTime

/-!
# The run of a frame

The loop of `execute_frame` is an iteration of one pass: accept an interrupt, clear the filler's
signal, step. It goes on while the frame lasts and no breakpoint is in sight, and the board it
leaves is the one after the last pass, with an interrupt accepted when a breakpoint was found.
-/

namespace VectorDebugger

namespace Board

variable {δ : Type} [Chips δ]

/-- One pass of the loop of `execute_frame`. -/
def pass (updateScreen : Bool) (board : Board δ) : Board δ :=
  board.beginIteration.singleStep updateScreen

/-- The check in the loop of `execute_frame` finds a breakpoint. -/
def stopsAtBreakpoint (board : Board δ) : Bool :=
  board.beginIteration.debugging && board.beginIteration.checkBreakpoint

/-- The loop of `execute_frame` makes a pass. -/
structure GoesOn (board : Board δ) : Prop where
  /-- The frame lasts. -/
  lasts : board.beam.brk = false
  /-- The debugger lets it run. -/
  free : board.debuggerInterrupt = false
  /-- No breakpoint is in sight. -/
  clear : board.stopsAtBreakpoint = false

/-- The loop of `execute_frame` ends. -/
inductive Ends (board : Board δ) : Board δ → Prop
  /-- The frame is over, or the debugger stopped it. -/
  | frame (done : board.beam.brk = true ∨ board.debuggerInterrupt = true) : Ends board board
  /-- A breakpoint is found, after an interrupt was accepted. -/
  | breakpoint (lasts : board.beam.brk = false) (free : board.debuggerInterrupt = false)
      (found : board.stopsAtBreakpoint = true) :
      Ends board { board.beginIteration with debuggerInterrupt := true }

/-- The loop from `start` executes the listed instructions and leaves the board `after`. -/
structure FrameRun (updateScreen : Bool) (start : Board δ) (executed : List (Board δ))
    (after : Board δ) : Prop where
  /-- The instructions are those of successive passes. -/
  passes : executed = (List.range executed.length).map fun i =>
    ((pass updateScreen)^[i] start).beginIteration
  /-- The loop goes on before each of them. -/
  goesOn : ∀ i < executed.length, GoesOn ((pass updateScreen)^[i] start)
  /-- It ends after the last one. -/
  ends : Ends ((pass updateScreen)^[executed.length] start) after

/-- One pass before a run is a run. -/
theorem FrameRun.cons {updateScreen : Bool} {start after : Board δ} {executed : List (Board δ)}
    (goesOn : start.GoesOn) (rest : FrameRun updateScreen (start.pass updateScreen) executed after) :
    FrameRun updateScreen start (start.beginIteration :: executed) after := by
  refine ⟨?_, ?_, rest.ends⟩
  · rw [List.length_cons, List.range_succ_eq_map, List.map_cons, List.map_map]
    exact congrArg (start.beginIteration :: ·) rest.passes
  · intro i below
    cases i with
    | zero => exact goesOn
    | succ i => exact rest.goesOn i (Nat.lt_of_succ_lt_succ below)

theorem frameLoop_spec (updateScreen : Bool) (fuel : Nat) :
    ∀ (start : Board δ) (done : List (Board δ) × Board δ),
      start.frameLoop updateScreen fuel = some done →
        FrameRun updateScreen start done.1 done.2 := by
  induction fuel with
  | zero => exact fun start done ran => nomatch ran
  | succ fuel inductionHypothesis =>
    intro start done ran
    unfold frameLoop at ran
    dsimp only at ran
    split at ran
    · rename_i finished
      cases ran
      exact ⟨rfl, fun i below => absurd below (Nat.not_lt_zero i),
        .frame (by simpa using finished)⟩
    · rename_i running
      simp only [Bool.or_eq_true, not_or, Bool.not_eq_true] at running
      split at ran
      · rename_i found
        cases ran
        exact ⟨rfl, fun i below => absurd below (Nat.not_lt_zero i),
          .breakpoint running.1 running.2 found⟩
      · rename_i clear
        cases later : (start.beginIteration.singleStep updateScreen).frameLoop updateScreen fuel with
        | none =>
          rw [later] at ran
          cases ran
        | some rest =>
          rw [later] at ran
          cases ran
          exact (inductionHypothesis _ rest later).cons
            ⟨running.1, running.2, by simpa [stopsAtBreakpoint] using clear⟩

/-- What `execute_frame` does when the debugger lets it run. -/
theorem executeFrame_spec (board : Board δ) (updateScreen : Bool)
    (free : board.debuggerInterrupt = false) (done : List (Board δ) × Board δ)
    (ran : board.executeFrame updateScreen = some done) :
    FrameRun updateScreen board.startFrame done.1 done.2 := by
  unfold executeFrame at ran
  rw [free] at ran
  exact frameLoop_spec updateScreen frameFuel board.startFrame done ran

/-- A pass leaves the debugger state alone. -/
theorem pass_debugger (updateScreen : Bool) (board : Board δ) :
    (board.pass updateScreen).debugging = board.debugging ∧
      (board.pass updateScreen).debuggerInterrupt = board.debuggerInterrupt ∧
      (board.pass updateScreen).breakpoints = board.breakpoints := by
  obtain ⟨_, _, debugging, interrupt, breakpoints⟩ := board.beginIteration_spec
  have after := board.beginIteration.singleStep_stepOf updateScreen
  exact ⟨after.debugging.trans debugging, after.debuggerInterrupt.trans interrupt,
    after.breakpoints.trans breakpoints⟩

theorem iterate_pass_debugger (updateScreen : Bool) (board : Board δ) (count : Nat) :
    ((pass updateScreen)^[count] board).debugging = board.debugging ∧
      ((pass updateScreen)^[count] board).debuggerInterrupt = board.debuggerInterrupt ∧
      ((pass updateScreen)^[count] board).breakpoints = board.breakpoints := by
  induction count with
  | zero => exact ⟨rfl, rfl, rfl⟩
  | succ count inductionHypothesis =>
    rw [Function.iterate_succ_apply']
    obtain ⟨debugging, interrupt, breakpoints⟩ := pass_debugger updateScreen
      ((pass updateScreen)^[count] board)
    exact ⟨debugging.trans inductionHypothesis.1, interrupt.trans inductionHypothesis.2.1,
      breakpoints.trans inductionHypothesis.2.2⟩

/-- A frame runs with the breakpoints it started with, and leaves them. -/
theorem FrameRun.debugger {updateScreen : Bool} {start after : Board δ}
    {executed : List (Board δ)} (run : FrameRun updateScreen start executed after) :
    after.debugging = start.debugging ∧ after.breakpoints = start.breakpoints := by
  obtain ⟨debugging, _, breakpoints⟩ := iterate_pass_debugger updateScreen start executed.length
  cases run.ends with
  | frame => exact ⟨debugging, breakpoints⟩
  | breakpoint =>
    obtain ⟨_, _, debugging', _, breakpoints'⟩ :=
      ((pass updateScreen)^[executed.length] start).beginIteration_spec
    exact ⟨debugging'.trans debugging, breakpoints'.trans breakpoints⟩

/-- While debugging, no instruction of a frame stands on a breakpoint. -/
theorem FrameRun.clear {updateScreen : Bool} {start after : Board δ} {executed : List (Board δ)}
    (run : FrameRun updateScreen start executed after) (debugging : start.debugging = true)
    (begun : Board δ) (listed : begun ∈ executed) :
    { addr := begun.machine.cpu.pc.toNat, kind := 1 } ∉ start.breakpoints := by
  rw [run.passes, List.mem_map] at listed
  obtain ⟨i, below, rfl⟩ := listed
  obtain ⟨_, _, clear⟩ := run.goesOn i (List.mem_range.mp below)
  obtain ⟨debugging', _, breakpoints'⟩ := iterate_pass_debugger updateScreen start i
  obtain ⟨_, _, debugging'', _, breakpoints''⟩ :=
    ((pass updateScreen)^[i] start).beginIteration_spec
  unfold stopsAtBreakpoint checkBreakpoint at clear
  rw [debugging'', debugging', debugging, breakpoints'', breakpoints', Bool.true_and] at clear
  simpa using clear

end Board

end VectorDebugger

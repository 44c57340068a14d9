import VectorDebugger.Machine.FrameRun

/-!
# The time of a frame

How many clocks the filler is given for what the processor spends. A pass of the loop of
`execute_frame` draws for its instruction and for the interrupt accepted before it, except for
the first pass of a frame: there `single_step` takes whatever `instr_time` holds for clocks left
by the frame before, which have been drawn already, and the sixteen cycles of an interrupt
accepted at that moment are taken with them.
-/

namespace VectorDebugger

namespace Raster

variable {δ : Type} [Chips δ]

/-- The frame does not end before the beam reaches its end. -/
theorem clocks_brk_of_below (commitTime commitTimePal : Int) (passes : Nat) :
    ∀ (clk : Nat) (raster : Raster δ), raster.beam.brk = false →
      raster.beam.position + 2 * passes < Beam.framePixels →
        (clocks commitTime commitTimePal passes clk raster).1.beam.brk = false := by
  induction passes with
  | zero => exact fun clk raster running below => running
  | succ passes inductionHypothesis =>
    intro clk raster running below
    obtain ⟨moved, ends⟩ := raster.beam.advance_position
    have beam := raster.clock_beam commitTime commitTimePal clk
    have size : Beam.framePixels = 239616 := rfl
    have mark : (raster.clock commitTime commitTimePal clk).beam.brk = false := by
      rw [beam, Beam.clock_brk]
      by_contra marked
      have reached := (ends running).mp (by simpa using marked)
      omega
    have place : (raster.clock commitTime commitTimePal clk).beam.position =
        raster.beam.position + 2 := by
      rw [beam, Beam.clock_position, moved]
      exact Nat.mod_eq_of_lt (by omega)
    exact inductionHypothesis (clk + 2) _ mark (by omega)

end Raster

namespace Board

variable {δ : Type} [Chips δ]

/-- An instruction lasts at most twenty-four cycles. -/
theorem videoCycles_le (board : Board δ) : board.videoCycles ≤ 24 := by
  have most : ∀ (instr : Instr) (flags : Flags), (instr.cycles flags).2 ≤ 24 := by
    intro instr flags
    cases instr <;> simp only [Instr.cycles] <;> first | omega | (split <;> omega)
  exact most _ _

/-- The cycles of an interrupt, when one is accepted before the pass. -/
def interruptCycles (board : Board δ) : Nat := if board.acceptsInterrupt then 16 else 0

/-- The clocks that one pass gives to `PixelFiller::fill`. -/
def passClocks (board : Board δ) : Nat := board.beginIteration.pendingCycles * 4

/-- The cycles that the processor spends in one pass. -/
def passCycles (board : Board δ) : Nat :=
  board.beginIteration.videoCycles + board.interruptCycles

/-- Accepting an interrupt adds its cycles to those that wait. -/
theorem beginIteration_instrTime (board : Board δ) :
    board.beginIteration.instrTime = board.instrTime + board.interruptCycles ∧
      board.beginIteration.between = board.between := by
  unfold beginIteration clearFillerIrq checkInterrupt interruptCycles acceptInterrupt
  dsimp only
  split
  · split <;> exact ⟨rfl, rfl⟩
  · exact ⟨rfl, rfl⟩

/-- The first pass of a frame draws for its instruction only. -/
theorem passClocks_first (board : Board δ) (fresh : board.between = 0) :
    board.passClocks + 4 * board.interruptCycles = 4 * board.passCycles := by
  have between := board.beginIteration_instrTime.2
  unfold passClocks passCycles pendingCycles
  rw [foldLeftover_instrTime, between, fresh, if_pos rfl]
  omega

/-- A later pass draws for everything. -/
theorem passClocks_later (board : Board δ) (later : 0 < board.between)
    (nothing : board.instrTime = 0) : board.passClocks = 4 * board.passCycles := by
  obtain ⟨waiting, between⟩ := board.beginIteration_instrTime
  unfold passClocks passCycles pendingCycles
  rw [foldLeftover_instrTime, between, if_neg (by omega), waiting, nothing]
  omega

/-- A pass moves the beam by its clocks. -/
theorem pass_position (updateScreen : Bool) (board : Board δ) :
    (board.pass updateScreen).beam.position =
      (board.beam.position + board.passClocks) % Beam.framePixels := by
  have moved := (board.beginIteration.singleStep_spec updateScreen).2.1
  have place : board.beginIteration.beam.position = board.beam.position := by
    rw [board.beginIteration_spec.1]
    rfl
  rw [place] at moved
  exact moved

omit [Chips δ] in
/-- Where a frame begins, after `PixelFiller::reset`. -/
theorem startFrame_position (board : Board δ) :
    board.startFrame.beam.position = board.beam.rasterPixel := by
  change 0 * 768 + board.beam.rasterPixel = board.beam.rasterPixel
  omega

/-- The boards at the head of the first passes of a frame. -/
def heads (updateScreen : Bool) (start : Board δ) (count : Nat) : List (Board δ) :=
  (List.range count).map fun i => (pass updateScreen)^[i] start

/-- The clocks of some passes. -/
def clocksOf (passes : List (Board δ)) : Nat := (passes.map passClocks).sum

/-- The cycles of some passes. -/
def cyclesOf (passes : List (Board δ)) : Nat := (passes.map passCycles).sum

theorem heads_succ (updateScreen : Bool) (start : Board δ) (count : Nat) :
    heads updateScreen start (count + 1) =
      heads updateScreen start count ++ [(pass updateScreen)^[count] start] := by
  unfold heads
  rw [List.range_succ, List.map_append, List.map_singleton]

theorem clocksOf_append (front back : List (Board δ)) :
    clocksOf (front ++ back) = clocksOf front + clocksOf back := by
  unfold clocksOf
  rw [List.map_append, List.sum_append]

theorem cyclesOf_append (front back : List (Board δ)) :
    cyclesOf (front ++ back) = cyclesOf front + cyclesOf back := by
  unfold cyclesOf
  rw [List.map_append, List.sum_append]

/-- The passes of a frame draw for all cycles but those of an interrupt before the first. -/
theorem heads_clocks (updateScreen : Bool) (start : Board δ) (fresh : start.between = 0)
    (count : Nat) (goesOn : ∀ i < count + 1, GoesOn ((pass updateScreen)^[i] start)) :
    clocksOf (heads updateScreen start (count + 1)) + 4 * start.interruptCycles =
      4 * cyclesOf (heads updateScreen start (count + 1)) := by
  induction count with
  | zero =>
    have first := start.passClocks_first fresh
    change (start.passClocks + 0) + 4 * start.interruptCycles = 4 * (start.passCycles + 0)
    omega
  | succ count inductionHypothesis =>
    have before := inductionHypothesis fun i below => goesOn i (by omega)
    have lasts := (goesOn (count + 1) (by omega)).lasts
    rw [Function.iterate_succ_apply'] at lasts
    obtain ⟨_, _, carried, later⟩ :=
      ((pass updateScreen)^[count] start).beginIteration.singleStep_spec updateScreen
    have last := passClocks_later (pass updateScreen ((pass updateScreen)^[count] start)) later
      (carried lasts).1
    rw [← Function.iterate_succ_apply' (pass updateScreen)] at last
    have single : clocksOf [(pass updateScreen)^[count + 1] start] =
        4 * cyclesOf [(pass updateScreen)^[count + 1] start] := by
      unfold clocksOf cyclesOf
      rw [List.map_singleton, List.map_singleton, List.sum_singleton, List.sum_singleton]
      exact last
    rw [heads_succ, clocksOf_append, cyclesOf_append, single]
    omega

/-- The passes move the beam by their clocks. -/
theorem heads_position (updateScreen : Bool) (start : Board δ) (count : Nat) :
    ((pass updateScreen)^[count] start).beam.position =
      (start.beam.position + clocksOf (heads updateScreen start count)) % Beam.framePixels := by
  induction count with
  | zero =>
    have nothing : clocksOf (heads updateScreen start 0) = 0 := rfl
    rw [nothing, Nat.add_zero, Function.iterate_zero_apply]
    exact (Nat.mod_eq_of_lt start.beam.position_lt).symm
  | succ count inductionHypothesis =>
    have single : clocksOf [(pass updateScreen)^[count] start] =
        ((pass updateScreen)^[count] start).passClocks := by
      unfold clocksOf
      rw [List.map_singleton, List.sum_singleton]
    rw [Function.iterate_succ_apply', pass_position, inductionHypothesis, heads_succ,
      clocksOf_append, single, Nat.mod_add_mod, Nat.add_assoc]

/-- A pass that ends the frame leaves the beam on its first line. -/
theorem pass_ends (updateScreen : Bool) (board : Board δ) (lasts : board.beam.brk = false)
    (drawn : board.between = 0 ∨ board.instrTime = 0)
    (ended : (board.pass updateScreen).beam.brk = true) :
    (board.pass updateScreen).beam.rasterLine = 0 := by
  have moved := pass_position updateScreen board
  have size : Beam.framePixels = 239616 := rfl
  have here := board.beam.position_lt
  obtain ⟨waiting, between⟩ := board.beginIteration_instrTime
  have pending : board.beginIteration.pendingCycles ≤ 64 := by
    have longest := board.beginIteration.videoCycles_le
    have interrupt : board.interruptCycles ≤ 16 := by
      unfold interruptCycles
      split <;> omega
    unfold pendingCycles
    rw [foldLeftover_instrTime]
    split <;> omega
  have reached : Beam.framePixels ≤ board.beam.position + board.passClocks := by
    by_contra short
    have beam := (board.beginIteration.singleStep_stepOf updateScreen).beam
    have start : board.beginIteration.drawn.beam = { board.beam with irq := false } :=
      board.beginIteration_spec.1
    have marks : (board.pass updateScreen).beam.brk = false := by
      unfold pass
      rw [beam]
      unfold drawing Raster.fill1
      dsimp only
      rw [Raster.commits_beam]
      apply Raster.clocks_brk_of_below
      · rw [start]
        exact lasts
      · rw [start]
        have clocks : board.passClocks = board.beginIteration.pendingCycles * 4 := rfl
        have place : ({ board.beam with irq := false } : Beam).position = board.beam.position := rfl
        rw [place]
        omega
    rw [marks] at ended
    cases ended
  have clocks : board.passClocks ≤ 256 := by
    unfold passClocks
    omega
  have after : (board.pass updateScreen).beam.position < 768 := by
    rw [size] at moved reached here
    omega
  unfold Beam.position at after
  omega

/-- A frame that ends with the passes of `heads` leaves the beam on its first line. -/
theorem heads_ends (updateScreen : Bool) (start : Board δ) (fresh : start.between = 0)
    (count : Nat) (goesOn : ∀ i < count + 1, GoesOn ((pass updateScreen)^[i] start))
    (ended : ((pass updateScreen)^[count + 1] start).beam.brk = true) :
    ((pass updateScreen)^[count + 1] start).beam.rasterLine = 0 := by
  have lasts := (goesOn count (by omega)).lasts
  have drawn : ((pass updateScreen)^[count] start).between = 0 ∨
      ((pass updateScreen)^[count] start).instrTime = 0 := by
    cases count with
    | zero => exact .inl fresh
    | succ count =>
      rw [Function.iterate_succ_apply'] at lasts ⊢
      exact .inr ((((pass updateScreen)^[count] start).beginIteration.singleStep_spec
        updateScreen).2.2.1 lasts).1
  rw [Function.iterate_succ_apply'] at ended ⊢
  exact pass_ends updateScreen _ lasts drawn ended

/-- An uninterrupted call of `execute_frame`, with the board at the head of each pass: the debugger
lets it run and it stops at the end of the frame. -/
structure WholeFrame (updateScreen : Bool) (board : Board δ) (passes : List (Board δ))
    (after : Board δ) : Prop where
  /-- The debugger lets it run. -/
  free : board.debuggerInterrupt = false
  /-- The call, and its passes. -/
  ran : ∃ executed, board.executeFrame updateScreen = some (executed, after) ∧
    passes = heads updateScreen board.startFrame executed.length
  /-- The frame is over. -/
  whole : after.beam.brk = true
  /-- No breakpoint was found. -/
  held : after.debuggerInterrupt = false

/-- What an uninterrupted frame does to the beam. -/
theorem WholeFrame.account {updateScreen : Bool} {board after : Board δ} {passes : List (Board δ)}
    (frame : WholeFrame updateScreen board passes after) :
    clocksOf passes + 4 * board.interruptCycles = 4 * cyclesOf passes ∧
      passes.head? = some board.startFrame ∧
      after.beam.position = (board.beam.rasterPixel + clocksOf passes) % Beam.framePixels ∧
      after.beam.rasterLine = 0 := by
  obtain ⟨executed, ran, rfl⟩ := frame.ran
  have run := executeFrame_spec board updateScreen frame.free (executed, after) ran
  have reached : after = (pass updateScreen)^[executed.length] board.startFrame := by
    have held := frame.held
    have ends := run.ends
    generalize (pass updateScreen)^[executed.length] board.startFrame = head at ends
    cases ends with
    | frame done => rfl
    | breakpoint lasts free found => cases held
  have some : ∃ count, executed.length = count + 1 := by
    cases length : executed.length with
    | zero =>
      have whole := frame.whole
      rw [reached, length] at whole
      cases whole
    | succ count => exact ⟨count, rfl⟩
  obtain ⟨count, length⟩ := some
  have goesOn := run.goesOn
  dsimp only at goesOn
  have ended := frame.whole
  rw [length] at goesOn
  rw [reached, length] at ended
  rw [reached, length]
  refine ⟨heads_clocks updateScreen board.startFrame rfl count goesOn, ?_, ?_, ?_⟩
  · unfold heads
    rw [List.range_succ_eq_map]
    rfl
  · rw [heads_position, startFrame_position]
  · exact heads_ends updateScreen board.startFrame rfl count goesOn ended

/-- Without a debugger attached a frame is uninterrupted. -/
theorem wholeFrame_of_detached (updateScreen : Bool) (board : Board δ)
    (free : board.debuggerInterrupt = false) (detached : board.debugging = false) :
    ∃ passes after, WholeFrame updateScreen board passes after := by
  obtain ⟨⟨executed, after⟩, ran⟩ :=
    Option.isSome_iff_exists.mp (board.executeFrame_isSome updateScreen)
  have run := executeFrame_spec board updateScreen free (executed, after) ran
  obtain ⟨debugging, held, _⟩ :=
    iterate_pass_debugger updateScreen board.startFrame executed.length
  have ends := run.ends
  dsimp only at ends
  refine ⟨heads updateScreen board.startFrame executed.length, after, free,
    ⟨executed, ran, rfl⟩, ?_, ?_⟩
  all_goals
    generalize (pass updateScreen)^[executed.length] board.startFrame = head at ends debugging held
    cases ends with
    | frame done =>
      have released : after.debuggerInterrupt = false := held.trans free
      first
        | exact released
        | exact done.resolve_right (by rw [released]; exact Bool.false_ne_true)
    | breakpoint lasts running found =>
      have unwatched : head.stopsAtBreakpoint = false := by
        unfold stopsAtBreakpoint
        rw [head.beginIteration_spec.2.2.1, debugging]
        change (board.debugging && _) = false
        rw [detached, Bool.false_and]
      rw [unwatched] at found
      cases found

/-- The cycles of interrupts accepted before the first pass of a frame. -/
def lostCycles (frames : List (List (Board δ))) : Nat :=
  (frames.map fun passes => (passes.head?.map interruptCycles).getD 0).sum

/-- What an uninterrupted run of frames does to the beam. -/
theorem frames_account {updateScreen : Bool} {board final : Board δ}
    {frames : List (List (Board δ))}
    (run : Transition.Run (WholeFrame updateScreen) board frames final) :
    clocksOf frames.flatten + 4 * lostCycles frames = 4 * cyclesOf frames.flatten ∧
      (frames = [] → final = board) ∧
      (frames ≠ [] → final.beam.position =
        (board.beam.rasterPixel + clocksOf frames.flatten) % Beam.framePixels) := by
  induction run with
  | nil state => exact ⟨rfl, fun _ => rfl, fun some => absurd rfl some⟩
  | cons frame rest inductionHypothesis =>
    rename_i state middle final passes frames
    obtain ⟨clocks, first, position, line⟩ := frame.account
    obtain ⟨restClocks, restNone, restPosition⟩ := inductionHypothesis
    have lost : lostCycles (passes :: frames) = state.interruptCycles + lostCycles frames := by
      unfold lostCycles
      rw [List.map_cons, List.sum_cons, first]
      rfl
    rw [List.flatten_cons, clocksOf_append, cyclesOf_append, lost]
    refine ⟨by omega, nofun, fun _ => ?_⟩
    by_cases more : frames = []
    · rw [restNone more, position, more]
      rfl
    · have place : middle.beam.rasterPixel = middle.beam.position := by
        unfold Beam.position
        rw [line]
        omega
      rw [restPosition more, place, position, Nat.mod_add_mod, Nat.add_assoc]

/-- No time is lost or invented in an uninterrupted run of frames exactly when no interrupt is
accepted before the first instruction of a frame; and the beam is then where the clocks put it
exactly when it started on the first line, as every whole frame leaves it. -/
theorem frame_time_iff {updateScreen : Bool} {board final : Board δ}
    {frames : List (List (Board δ))}
    (run : Transition.Run (WholeFrame updateScreen) board frames final) :
    (clocksOf frames.flatten = 4 * cyclesOf frames.flatten ∧
        final.beam.position =
          (board.beam.position + clocksOf frames.flatten) % Beam.framePixels) ↔
      (∀ passes ∈ frames, ∀ first ∈ passes.head?, first.acceptsInterrupt = false) ∧
        (frames = [] ∨ board.beam.rasterLine = 0) := by
  obtain ⟨clocks, none, position⟩ := frames_account run
  have kept : clocksOf frames.flatten = 4 * cyclesOf frames.flatten ↔
      ∀ passes ∈ frames, ∀ first ∈ passes.head?, first.acceptsInterrupt = false := by
    have nothing : clocksOf frames.flatten = 4 * cyclesOf frames.flatten ↔
        lostCycles frames = 0 := by omega
    rw [nothing]
    unfold lostCycles
    rw [List.sum_eq_zero_iff_forall_eq_nat]
    constructor
    · intro zero passes member first head
      have lost := zero _ (List.mem_map_of_mem member)
      rw [head] at lost
      change first.interruptCycles = 0 at lost
      unfold interruptCycles at lost
      by_contra accepts
      rw [if_pos (by simpa using accepts)] at lost
      cases lost
    · intro refuses lost listed
      obtain ⟨passes, member, rfl⟩ := List.mem_map.mp listed
      cases head : passes.head? with
      | none => rfl
      | some first =>
        change first.interruptCycles = 0
        unfold interruptCycles
        rw [refuses passes member first head]
        rfl
  have placed : final.beam.position =
        (board.beam.position + clocksOf frames.flatten) % Beam.framePixels ↔
      frames = [] ∨ board.beam.rasterLine = 0 := by
    by_cases some : frames = []
    · have zero : clocksOf frames.flatten = 0 := by
        rw [some]
        rfl
      rw [none some, zero, Nat.add_zero, Nat.mod_eq_of_lt board.beam.position_lt]
      exact iff_of_true rfl (.inl some)
    · have size : Beam.framePixels = 239616 := rfl
      have line := board.beam.line_lt
      rw [position some, or_iff_right some, size]
      unfold Beam.position
      omega
  rw [kept, placed]

/-- The first frame of a machine just switched on. -/
theorem frame_time_powerOn :
    ∃ passes after, WholeFrame true (powerOn () []) passes after ∧
      clocksOf [passes].flatten = 4 * cyclesOf [passes].flatten := by
  obtain ⟨passes, after, frame⟩ := wholeFrame_of_detached true (powerOn () []) rfl rfl
  have run : Transition.Run (WholeFrame true) (powerOn () []) [passes] after :=
    .cons frame (.nil after)
  have kept := (frame_time_iff run).mpr ⟨?_, .inr rfl⟩
  · exact ⟨passes, after, frame, kept.1⟩
  · intro listed member first head
    rw [List.mem_singleton.mp member, frame.account.2.1] at head
    cases head
    rfl

/-- A machine stepped through an `EI` and ten `NOP`s, until the frame signal is latched. -/
def signalled : Board Unit :=
  (singleStep · true)^[11] { powerOn () [] with
    machine := { Machine.powerOn () [] with memory := Memory.init.write 0 0xfb false } }

/-- Run from there, it takes the interrupt before the first instruction of the frame, and sixteen
cycles are never drawn. -/
theorem frame_loses_interrupt :
    signalled.acceptsInterrupt = true ∧
      ∃ passes after, Transition.Run (WholeFrame true) signalled [passes] after ∧
        clocksOf [passes].flatten + 64 = 4 * cyclesOf [passes].flatten := by
  have accepts : signalled.acceptsInterrupt = true := by decide +kernel
  have free : signalled.debuggerInterrupt = false := by decide +kernel
  have detached : signalled.debugging = false := by decide +kernel
  obtain ⟨passes, after, frame⟩ := wholeFrame_of_detached true signalled free detached
  refine ⟨accepts, passes, after, .cons frame (.nil after), ?_⟩
  have clocks := frame.account.1
  unfold interruptCycles at clocks
  rw [if_pos accepts] at clocks
  rw [List.flatten_cons, List.flatten_nil, List.append_nil]
  exact clocks

end Board

end VectorDebugger

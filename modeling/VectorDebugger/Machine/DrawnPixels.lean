import VectorDebugger.Machine.FrameBuffer
import VectorDebugger.Machine.FrameTime
import VectorDebugger.Machine.PortWrites

/-!
# The pixels drawn

The canvas of `PixelFiller`: the drawing, the commits and the lines of a fill act on it as the
passes of the frame buffer do, and the pixels outside the reported indices keep their colour. In
a run of frames and single steps each pixel falls into its own row of the buffer exactly as long
as no step draws past the end of its frame.
-/

namespace VectorDebugger

namespace Picture

/-- What decides where the next pixel is stored. -/
def canvas (picture : Picture) : Canvas where
  visible := picture.visible
  bmpofs := picture.bmpofs

/-- `PixelFiller::init`. -/
def init (picture : Picture) (options : ScreenOptions) : Picture :=
  { picture with
    firstVisibleLine := options.firstVisibleLine
    centerOffset := options.centerOffset
    screenWidth := options.screenWidth }

/-- The options that `PixelFiller::init` stored. -/
structure Set (options : ScreenOptions) (picture : Picture) : Prop where
  /-- `first_visible_line`. -/
  firstVisibleLine : picture.firstVisibleLine = options.firstVisibleLine
  /-- `center_offset`. -/
  centerOffset : picture.centerOffset = options.centerOffset
  /-- `screen_width`. -/
  screenWidth : picture.screenWidth = options.screenWidth

/-- The options and the canvas of two pictures are the same. -/
structure SameCanvas (picture other : Picture) : Prop where
  /-- The canvas. -/
  canvas : picture.canvas = other.canvas
  /-- `first_visible_line`. -/
  firstVisibleLine : picture.firstVisibleLine = other.firstVisibleLine
  /-- `center_offset`. -/
  centerOffset : picture.centerOffset = other.centerOffset
  /-- `screen_width`. -/
  screenWidth : picture.screenWidth = other.screenWidth
  /-- The frame buffer. -/
  pixels : picture.pixels = other.pixels

theorem SameCanvas.refl (picture : Picture) : picture.SameCanvas picture :=
  ⟨rfl, rfl, rfl, rfl, rfl⟩

theorem SameCanvas.trans {picture middle other : Picture} (first : picture.SameCanvas middle)
    (second : middle.SameCanvas other) : picture.SameCanvas other :=
  ⟨first.canvas.trans second.canvas, first.firstVisibleLine.trans second.firstVisibleLine,
    first.centerOffset.trans second.centerOffset, first.screenWidth.trans second.screenWidth,
    first.pixels.trans second.pixels⟩

theorem SameCanvas.set {picture other : Picture} {options : ScreenOptions}
    (same : picture.SameCanvas other) (set : other.Set options) : picture.Set options :=
  ⟨same.firstVisibleLine.trans set.firstVisibleLine, same.centerOffset.trans set.centerOffset,
    same.screenWidth.trans set.screenWidth⟩

/-- Finding the colour stores nothing. -/
theorem getColorIndex_canvas (picture : Picture) (memory : Memory) (rpixel : Int) (border : Bool) :
    (picture.getColorIndex memory rpixel border).2.SameCanvas picture := by
  unfold getColorIndex
  split
  · exact ⟨rfl, rfl, rfl, rfl, rfl⟩
  · dsimp only
    split <;> exact ⟨rfl, rfl, rfl, rfl, rfl⟩

/-- The indices at which the drawing of one pixel pair stores. -/
def drawIndices (picture : Picture) (rasterPixel : Nat) : List Nat :=
  let bmpX : Int := rasterPixel - picture.centerOffset
  if picture.visible && decide (bmpX ≥ 0) && decide (bmpX < picture.screenWidth) then
    [picture.bmpofs, picture.bmpofs + 1]
  else []

/-- The drawing stores at these indices, one after another, and nowhere else. -/
theorem draw_indices (picture : Picture) (palette : Palette) (rasterPixel index : Nat)
    (border : Bool) :
    (picture.draw palette rasterPixel index border).canvas =
        ⟨picture.visible, picture.bmpofs + (picture.drawIndices rasterPixel).length⟩ ∧
      ∀ place, place ∉ picture.drawIndices rasterPixel →
        (picture.draw palette rasterPixel index border).pixels place = picture.pixels place := by
  have twice : ∀ first second : BitVec 32, ((picture.put first).put second).canvas =
        ⟨picture.visible, picture.bmpofs + 2⟩ ∧
      ∀ place, place ∉ [picture.bmpofs, picture.bmpofs + 1] →
        ((picture.put first).put second).pixels place = picture.pixels place := by
    intro first second
    refine ⟨rfl, fun place outside => ?_⟩
    simp only [List.mem_cons, List.not_mem_nil, or_false, not_or] at outside
    unfold put
    dsimp only
    rw [Function.update_of_ne outside.2, Function.update_of_ne outside.1]
  unfold draw drawIndices
  dsimp only
  split
  · split
    · exact twice _ _
    · exact twice _ _
  · exact ⟨rfl, fun place _ => rfl⟩

/-- The options survive the drawing. -/
theorem draw_set {picture : Picture} {options : ScreenOptions} (set : picture.Set options)
    (palette : Palette) (rasterPixel index : Nat) (border : Bool) :
    (picture.draw palette rasterPixel index border).Set options := by
  unfold draw
  dsimp only
  split
  · split
    · exact ⟨set.firstVisibleLine, set.centerOffset, set.screenWidth⟩
    · exact ⟨set.firstVisibleLine, set.centerOffset, set.screenWidth⟩
  · exact set

/-- With the options stored, the pixels are those of the canvas. -/
theorem drawIndices_canvas {picture : Picture} {options : ScreenOptions}
    (set : picture.Set options) (rasterPixel : Nat) :
    (picture.drawIndices rasterPixel).map PixelEvent.put =
        picture.canvas.stores options rasterPixel ∧
      (picture.drawIndices rasterPixel).length =
        if picture.visible && options.inWindow rasterPixel then 2 else 0 := by
  have window : (decide ((rasterPixel : Int) - picture.centerOffset ≥ 0) &&
      decide ((rasterPixel : Int) - picture.centerOffset < picture.screenWidth)) =
        options.inWindow rasterPixel := by
    rw [set.centerOffset, set.screenWidth]
    unfold ScreenOptions.inWindow
    congr 1 <;> apply decide_eq_decide.mpr <;> omega
  unfold drawIndices Canvas.stores canvas
  dsimp only
  rw [Bool.and_assoc, window]
  split <;> exact ⟨rfl, rfl⟩

end Picture

namespace Screen

variable {δ : Type} [Chips δ]

/-- A commit stores no pixel. -/
theorem commits_canvas (screen : Screen δ) (commitTime commitTimePal : Int) (clk index : Nat) :
    (screen.commits commitTime commitTimePal clk index).picture.SameCanvas screen.picture := by
  have committed : screen.commit.picture.SameCanvas screen.picture := by
    unfold commit
    dsimp only
    split <;> exact ⟨rfl, rfl, rfl, rfl, rfl⟩
  unfold commits
  dsimp only
  split
  · split
    · exact committed
    · exact .refl _
  · split
    · exact committed
    · exact .refl _

omit [Chips δ] in
/-- The end of a pass stores no pixel; it counts the lines. -/
theorem advance_canvas {screen : Screen δ} {options : ScreenOptions}
    (set : screen.picture.Set options) (updateScreen : Bool) (clk : Nat) :
    (screen.advance updateScreen clk).picture.Set options ∧
      (screen.advance updateScreen clk).picture.canvas =
        ⟨if screen.beam.endsLine then
            if screen.beam.rasterLine + 1 = 312 then false
            else screen.picture.visible ||
              (updateScreen && screen.beam.rasterLine + 1 == options.firstVisibleLine)
          else screen.picture.visible, screen.picture.bmpofs⟩ ∧
      (screen.advance updateScreen clk).picture.pixels = screen.picture.pixels := by
  have line : ∀ row : Picture, row = (if screen.beam.endsLine then
        screen.picture.advanceLine updateScreen (screen.beam.rasterLine + 1)
        else screen.picture) →
      row.Set options ∧
        row.canvas =
          ⟨if screen.beam.endsLine then
              if screen.beam.rasterLine + 1 = 312 then false
              else screen.picture.visible ||
                (updateScreen && screen.beam.rasterLine + 1 == options.firstVisibleLine)
            else screen.picture.visible, screen.picture.bmpofs⟩ ∧
        row.pixels = screen.picture.pixels := by
    intro row rowEq
    rw [rowEq]
    split
    · refine ⟨⟨set.firstVisibleLine, set.centerOffset, set.screenWidth⟩, ?_, rfl⟩
      unfold Picture.advanceLine Picture.canvas
      dsimp only
      rw [set.firstVisibleLine]
    · exact ⟨set, rfl, rfl⟩
  unfold advance
  dsimp only
  split
  · obtain ⟨kept, canvas, pixels⟩ := line _ rfl
    exact ⟨⟨kept.firstVisibleLine, kept.centerOffset, kept.screenWidth⟩, canvas, pixels⟩
  · split
    · exact line _ rfl
    · exact line _ rfl

/-- What one pass of `PixelFiller::fill1` does to the frame buffer. -/
def clockPixels (screen : Screen δ) : List PixelEvent :=
  (screen.picture.drawIndices screen.beam.rasterPixel).map .put ++
    if screen.beam.endsLine then [.lineEnd screen.beam.rasterLine screen.picture.visible] else []

/-- What the passes of `PixelFiller::fill1` do to the frame buffer. -/
def clocksPixels (updateScreen : Bool) (commitTime commitTimePal : Int) :
    Nat → Nat → Screen δ → List PixelEvent
  | 0, _, _ => []
  | passes + 1, clk, screen =>
    screen.clockPixels ++ clocksPixels updateScreen commitTime commitTimePal passes (clk + 2)
      (screen.clock updateScreen commitTime commitTimePal clk).2

/-- One pass stores the pixels it reports and no others, and moves the canvas on. -/
theorem clock_canvas {screen : Screen δ} {options : ScreenOptions}
    (set : screen.picture.Set options) (updateScreen : Bool) (commitTime commitTimePal : Int)
    (clk : Nat) :
    screen.clockPixels =
        screen.picture.canvas.stores options screen.beam.rasterPixel ++
          screen.picture.canvas.leaves screen.beam ∧
      (screen.clock updateScreen commitTime commitTimePal clk).2.picture.Set options ∧
      (screen.clock updateScreen commitTime commitTimePal clk).2.picture.canvas =
        screen.picture.canvas.pass options updateScreen screen.beam ∧
      ∀ place, .put place ∉ screen.clockPixels →
        (screen.clock updateScreen commitTime commitTimePal clk).2.picture.pixels place =
          screen.picture.pixels place := by
  obtain ⟨found, foundEq⟩ : ∃ found, found = screen.picture.getColorIndex screen.memory
      ((screen.beam.rasterPixel : Int) - 24)
      (screen.picture.overBorder ((screen.beam.rasterPixel : Int) - 24)) := ⟨_, rfl⟩
  obtain ⟨committed, committedEq⟩ : ∃ committed : Screen δ, committed =
      ({ screen with picture := found.2 } : Screen δ).commits commitTime commitTimePal clk
        found.1 :=
    ⟨_, rfl⟩
  have same : committed.picture.SameCanvas screen.picture := by
    have first := commits_canvas ({ screen with picture := found.2 } : Screen δ) commitTime
      commitTimePal clk found.1
    rw [← committedEq] at first
    have second := screen.picture.getColorIndex_canvas screen.memory
      ((screen.beam.rasterPixel : Int) - 24)
      (screen.picture.overBorder ((screen.beam.rasterPixel : Int) - 24))
    rw [← foundEq] at second
    exact first.trans second
  have beam : committed.beam = screen.beam := by
    have kept := raster_commits ({ screen with picture := found.2 } : Screen δ) commitTime
      commitTimePal clk found.1
    have moved := congrArg Raster.beam kept
    rw [← committedEq, Raster.commits_beam] at moved
    exact moved
  obtain ⟨drawn, drawnEq⟩ : ∃ drawn, drawn = committed.picture.draw committed.palette
      committed.beam.rasterPixel found.1
      (screen.picture.overBorder ((screen.beam.rasterPixel : Int) - 24)) := ⟨_, rfl⟩
  have moved : (screen.clock updateScreen commitTime commitTimePal clk).2 =
      ({ committed with picture := drawn } : Screen δ).advance updateScreen clk := by
    unfold clock
    dsimp only
    rw [← foundEq, ← committedEq, ← drawnEq]
  have indices : committed.picture.drawIndices committed.beam.rasterPixel =
      screen.picture.drawIndices screen.beam.rasterPixel := by
    have visible := congrArg Canvas.visible same.canvas
    have bmpofs := congrArg Canvas.bmpofs same.canvas
    unfold Picture.canvas at visible bmpofs
    dsimp only at visible bmpofs
    unfold Picture.drawIndices
    rw [beam, visible, bmpofs, same.centerOffset, same.screenWidth]
  obtain ⟨stored, others⟩ := committed.picture.draw_indices committed.palette
    committed.beam.rasterPixel found.1
    (screen.picture.overBorder ((screen.beam.rasterPixel : Int) - 24))
  rw [← drawnEq, indices] at stored others
  obtain ⟨events, count⟩ := Picture.drawIndices_canvas set screen.beam.rasterPixel
  have setDrawn : ({ committed with picture := drawn } : Screen δ).picture.Set options := by
    rw [drawnEq]
    exact Picture.draw_set (same.set set) _ _ _ _
  obtain ⟨kept, after, pixels⟩ := advance_canvas setDrawn updateScreen clk
  rw [moved]
  refine ⟨?_, kept, ?_, ?_⟩
  · unfold clockPixels
    rw [events]
    rfl
  · have visible : drawn.visible = screen.picture.visible :=
      (congrArg Canvas.visible stored).trans (congrArg Canvas.visible same.canvas)
    have bmpofs : drawn.bmpofs = screen.picture.bmpofs +
        if screen.picture.visible && options.inWindow screen.beam.rasterPixel then 2 else 0 := by
      have offset : committed.picture.bmpofs = screen.picture.bmpofs :=
        congrArg Canvas.bmpofs same.canvas
      rw [← count, ← offset]
      exact congrArg Canvas.bmpofs stored
    rw [after]
    dsimp only
    rw [visible, bmpofs, beam]
    rfl
  · intro place outside
    have away : place ∉ screen.picture.drawIndices screen.beam.rasterPixel := by
      intro member
      exact outside (List.mem_append_left _ (List.mem_map_of_mem member))
    rw [pixels, ← same.pixels]
    exact others place away

/-- The beam after one pass. -/
theorem clock_beam (screen : Screen δ) (updateScreen : Bool) (commitTime commitTimePal : Int)
    (clk : Nat) :
    (screen.clock updateScreen commitTime commitTimePal clk).2.beam = screen.beam.clock clk := by
  have observed := congrArg Raster.beam
    (raster_clock screen updateScreen commitTime commitTimePal clk)
  rw [Raster.clock_beam] at observed
  exact observed

/-- The passes of a fill store the pixels they report and no others. -/
theorem clocks_pixels (updateScreen : Bool) (commitTime commitTimePal : Int)
    {options : ScreenOptions} (passes : Nat) :
    ∀ (clk index : Nat) (screen : Screen δ), screen.picture.Set options →
      let after := (clocks updateScreen commitTime commitTimePal passes clk index screen).2.1
      after.picture.Set options ∧
        ∀ place, .put place ∉ clocksPixels updateScreen commitTime commitTimePal passes clk screen →
          after.picture.pixels place = screen.picture.pixels place := by
  induction passes with
  | zero => exact fun clk index screen set => ⟨set, fun place outside => rfl⟩
  | succ passes inductionHypothesis =>
    intro clk index screen set
    obtain ⟨_, kept, _, pixels⟩ := clock_canvas set updateScreen commitTime commitTimePal clk
    obtain ⟨rest, others⟩ := inductionHypothesis (clk + 2)
      (screen.clock updateScreen commitTime commitTimePal clk).1 _ kept
    refine ⟨rest, fun place outside => ?_⟩
    have away := not_or.mp (fun member => outside (List.mem_append.mpr member))
    exact (others place away.2).trans (pixels place away.1)

/-- From a phase with room for its passes, a fill stores everything where it must be and leaves a
phase again; without the room it stores outside the buffer. -/
theorem clocks_sound (commitTime commitTimePal : Int) {options : ScreenOptions} (passes : Nat) :
    ∀ (clk index : Nat) (screen : Screen δ) (since : List Nat) (room : Nat),
      screen.picture.Set options → Phase options since screen.beam screen.picture.canvas room →
      let events := clocksPixels true commitTime commitTimePal passes clk screen
      let after := (clocks true commitTime commitTimePal passes clk index screen).2.1
      (2 * passes ≤ room →
        PixelEvent.Sound options since events ∧
          Phase options (events.foldl PixelEvent.observe since) after.beam after.picture.canvas
            (room - 2 * passes)) ∧
      (room < 2 * passes → ¬ PixelEvent.Sound options since events) := by
  induction passes with
  | zero =>
    intro clk index screen since room set phase
    exact ⟨fun fits => ⟨trivial, phase⟩, fun short => absurd short (Nat.not_lt_zero _)⟩
  | succ passes inductionHypothesis =>
    intro clk index screen since room set phase
    obtain ⟨events, kept, canvas, _⟩ := clock_canvas set true commitTime commitTimePal clk
    have beam := screen.clock_beam true commitTime commitTimePal clk
    have unfolded : clocksPixels true commitTime commitTimePal (passes + 1) clk screen =
        screen.clockPixels ++ clocksPixels true commitTime commitTimePal passes (clk + 2)
          (screen.clock true commitTime commitTimePal clk).2 := rfl
    have stepped : (clocks true commitTime commitTimePal (passes + 1) clk index screen).2.1 =
        (clocks true commitTime commitTimePal passes (clk + 2)
          (screen.clock true commitTime commitTimePal clk).1
          (screen.clock true commitTime commitTimePal clk).2).2.1 := rfl
    dsimp only
    rw [unfolded, stepped, PixelEvent.sound_append, List.foldl_append]
    have parity := phase.room_even
    by_cases some : 0 < room
    · obtain ⟨here, there⟩ := phase.passes clk some
      rw [← events] at here there
      rw [← beam, ← canvas] at there
      obtain ⟨sound, unsound⟩ := inductionHypothesis (clk + 2)
        (screen.clock true commitTime commitTimePal clk).1 _ _ _ kept there
      constructor
      · intro fits
        obtain ⟨rest, last⟩ := sound (by omega)
        exact ⟨⟨here, rest⟩, last.of_room (by omega)⟩
      · intro short both
        exact unsound (by omega) both.2
    · have none : room = 0 := by omega
      rw [none] at phase
      have overflow := phase.overflows
      rw [← events] at overflow
      exact ⟨fun fits => by omega, fun short both => overflow both.1⟩

/-- A fill without updates, in a frame that has stored nothing, stores nothing. -/
theorem clocks_unseen (commitTime commitTimePal : Int) {options : ScreenOptions} (passes : Nat) :
    ∀ (clk index : Nat) (screen : Screen δ), screen.picture.Set options →
      screen.picture.canvas = ⟨false, 0⟩ →
      let events := clocksPixels false commitTime commitTimePal passes clk screen
      let after := (clocks false commitTime commitTimePal passes clk index screen).2.1
      PixelEvent.Sound options [] events ∧ events.foldl PixelEvent.observe [] = [] ∧
        after.picture.canvas = ⟨false, 0⟩ := by
  induction passes with
  | zero => exact fun clk index screen set unseen => ⟨trivial, rfl, unseen⟩
  | succ passes inductionHypothesis =>
    intro clk index screen set unseen
    obtain ⟨events, kept, canvas, _⟩ := clock_canvas set false commitTime commitTimePal clk
    rw [unseen] at events canvas
    rw [Phase.quiet_pass] at canvas
    obtain ⟨here, nothing⟩ := Phase.unseen_sound options screen.beam
    obtain ⟨rest, later, last⟩ := inductionHypothesis (clk + 2)
      (screen.clock false commitTime commitTimePal clk).1 _ kept canvas
    have unfolded : clocksPixels false commitTime commitTimePal (passes + 1) clk screen =
        screen.clockPixels ++ clocksPixels false commitTime commitTimePal passes (clk + 2)
          (screen.clock false commitTime commitTimePal clk).2 := rfl
    dsimp only
    rw [unfolded, PixelEvent.sound_append, List.foldl_append, events, nothing]
    exact ⟨⟨here, rest⟩, later, last⟩

end Screen

namespace Board

variable {δ : Type} [Chips δ]

/-- `PixelFiller::init`, called once. -/
def initFiller (board : Board δ) (options : ScreenOptions) : Board δ :=
  { board with picture := board.picture.init options }

/-- What the drawing of the next instruction does to the frame buffer. -/
def pixelEvents (board : Board δ) (updateScreen : Bool) : List PixelEvent :=
  Screen.clocksPixels updateScreen (commitTime board.machine.opcode board.pendingCycles)
    (commitTimePal board.machine.opcode board.pendingCycles)
    ((board.pendingCycles * 4 + 1) / 2) 0 board.ready

/-- The filler keeps its options and is in a phase. -/
structure InPhase (options : ScreenOptions) (since : List Nat) (board : Board δ) (room : Nat) :
    Prop where
  /-- The options. -/
  set : board.picture.Set options
  /-- The phase. -/
  phase : Phase options since board.beam board.picture.canvas room

/-- The passes that draw an instruction. -/
def passesEnd (board : Board δ) (updateScreen : Bool) : Screen δ :=
  (Screen.clocks updateScreen (commitTime board.machine.opcode board.pendingCycles)
    (commitTimePal board.machine.opcode board.pendingCycles)
    ((board.pendingCycles * 4 + 1) / 2) 0 0 board.ready).2.1

/-- What `single_step` leaves of the canvas and the beam: what its passes leave. -/
theorem singleStep_canvas (board : Board δ) (updateScreen : Bool) :
    (board.singleStep updateScreen).picture.SameCanvas (board.passesEnd updateScreen).picture ∧
      (board.singleStep updateScreen).beam = (board.passesEnd updateScreen).beam := by
  have drawn : (board.picturing updateScreen).1 = (board.passesEnd updateScreen).commits
      (commitTime board.machine.opcode board.pendingCycles)
      (commitTimePal board.machine.opcode board.pendingCycles)
      (2 * ((board.pendingCycles * 4 + 1) / 2))
      (Screen.clocks updateScreen (commitTime board.machine.opcode board.pendingCycles)
        (commitTimePal board.machine.opcode board.pendingCycles)
        ((board.pendingCycles * 4 + 1) / 2) 0 0 board.ready).1 := rfl
  constructor
  · rw [(board.singleStep_pictured updateScreen).1, drawn]
    exact Screen.commits_canvas _ _ _ _ _
  · have observed : (board.picturing updateScreen).1.raster = board.drawing.1 :=
      (Screen.raster_fill1 board.ready _ _ _ updateScreen).1
    have beam : (board.singleStep updateScreen).beam = (board.picturing updateScreen).1.beam :=
      (board.singleStep_stepOf updateScreen).beam.trans (congrArg Raster.beam observed).symm
    have commits := congrArg Raster.beam (Screen.raster_commits (board.passesEnd updateScreen)
      (commitTime board.machine.opcode board.pendingCycles)
      (commitTimePal board.machine.opcode board.pendingCycles)
      (2 * ((board.pendingCycles * 4 + 1) / 2))
      (Screen.clocks updateScreen (commitTime board.machine.opcode board.pendingCycles)
        (commitTimePal board.machine.opcode board.pendingCycles)
        ((board.pendingCycles * 4 + 1) / 2) 0 0 board.ready).1)
    rw [Raster.commits_beam, ← drawn] at commits
    exact beam.trans commits

/-- An instruction changes the frame buffer at the reported indices only. -/
theorem singleStep_pixels (board : Board δ) (updateScreen : Bool) {options : ScreenOptions}
    (set : board.picture.Set options) (place : Nat)
    (outside : .put place ∉ board.pixelEvents updateScreen) :
    (board.singleStep updateScreen).picture.pixels place = board.picture.pixels place := by
  rw [(board.singleStep_canvas updateScreen).1.pixels]
  exact (Screen.clocks_pixels updateScreen _ _ _ 0 0 board.ready set).2 place outside

/-- An instruction that has room for its pixels stores them where they must be; without the room
it stores outside the buffer. -/
theorem singleStep_sound {options : ScreenOptions} {since : List Nat} {board : Board δ}
    {room : Nat} (inside : board.InPhase options since room) :
    (board.pendingCycles * 4 ≤ room →
        PixelEvent.Sound options since (board.pixelEvents true) ∧
          (board.singleStep true).InPhase options
            ((board.pixelEvents true).foldl PixelEvent.observe since)
            (room - board.pendingCycles * 4)) ∧
      (room < board.pendingCycles * 4 →
        ¬ PixelEvent.Sound options since (board.pixelEvents true)) := by
  have passes : 2 * ((board.pendingCycles * 4 + 1) / 2) = board.pendingCycles * 4 := by omega
  obtain ⟨same, beam⟩ := board.singleStep_canvas true
  have set := (Screen.clocks_pixels true (commitTime board.machine.opcode board.pendingCycles)
    (commitTimePal board.machine.opcode board.pendingCycles)
    ((board.pendingCycles * 4 + 1) / 2) 0 0 board.ready inside.set).1
  obtain ⟨sound, unsound⟩ := Screen.clocks_sound
    (commitTime board.machine.opcode board.pendingCycles)
    (commitTimePal board.machine.opcode board.pendingCycles)
    ((board.pendingCycles * 4 + 1) / 2) 0 0 board.ready since room inside.set inside.phase
  rw [passes] at sound unsound
  refine ⟨fun fits => ?_, unsound⟩
  obtain ⟨stored, phase⟩ := sound fits
  refine ⟨stored, same.set set, ?_⟩
  rw [beam, same.canvas]
  exact phase

/-- An instruction without updates, in a frame that has stored nothing, stores nothing. -/
theorem singleStep_unseen {options : ScreenOptions} {board : Board δ}
    (set : board.picture.Set options) (unseen : board.picture.canvas = ⟨false, 0⟩) :
    PixelEvent.Sound options [] (board.pixelEvents false) ∧
      (board.pixelEvents false).foldl PixelEvent.observe [] = [] ∧
      (board.singleStep false).picture.Set options ∧
      (board.singleStep false).picture.canvas = ⟨false, 0⟩ := by
  obtain ⟨same, _⟩ := board.singleStep_canvas false
  have kept := (Screen.clocks_pixels false (commitTime board.machine.opcode board.pendingCycles)
    (commitTimePal board.machine.opcode board.pendingCycles)
    ((board.pendingCycles * 4 + 1) / 2) 0 0 board.ready set).1
  obtain ⟨sound, nothing, after⟩ := Screen.clocks_unseen
    (commitTime board.machine.opcode board.pendingCycles)
    (commitTimePal board.machine.opcode board.pendingCycles)
    ((board.pendingCycles * 4 + 1) / 2) 0 0 board.ready set unseen
  exact ⟨sound, nothing, same.set kept, same.canvas.trans after⟩

/-! ### Frames -/

/-- Accepting an interrupt leaves the picture alone. -/
theorem beginIteration_picture (board : Board δ) :
    board.beginIteration.picture = board.picture := by
  unfold beginIteration clearFillerIrq checkInterrupt acceptInterrupt
  dsimp only
  split
  · split <;> rfl
  · rfl

/-- A pass of the loop of `execute_frame` starts in the same phase. -/
theorem InPhase.begun {options : ScreenOptions} {since : List Nat} {board : Board δ} {room : Nat}
    (inside : board.InPhase options since room) :
    board.beginIteration.InPhase options since room := by
  have beam := board.beginIteration_spec.1
  refine ⟨by rw [board.beginIteration_picture]; exact inside.set, ?_⟩
  rw [board.beginIteration_picture]
  exact inside.phase.congr (by rw [beam]) (by rw [beam]) (by rw [beam])

/-- The clocks of a pass, when no cycles of an earlier frame are left in the middle of one. -/
theorem passClocks_le (board : Board δ) (settled : board.between = 0 ∨ board.instrTime = 0) :
    board.passClocks ≤ 160 := by
  have most := board.beginIteration.videoCycles_le
  obtain ⟨waiting, between⟩ := board.beginIteration_instrTime
  have interrupt : board.interruptCycles ≤ 16 := by
    unfold interruptCycles
    split <;> omega
  unfold passClocks pendingCycles
  rw [foldLeftover_instrTime, between]
  split
  · omega
  · omega

/-- The loop of `execute_frame` with updates stores everything where it must be. -/
theorem frameLoop_sound {options : ScreenOptions} (fuel : Nat) :
    ∀ (board : Board δ) (since : List Nat) (room : Nat) (done : List (Board δ) × Board δ),
      board.InPhase options since room →
      (board.beam.brk = false → board.between = 0 ∨ board.instrTime = 0) →
      board.frameLoop true fuel = some done →
        let events := done.1.flatMap (pixelEvents · true)
        PixelEvent.Sound options since events ∧
          ∃ left, done.2.InPhase options (events.foldl PixelEvent.observe since) left := by
  induction fuel with
  | zero => exact fun board since room done inside settled ran => nomatch ran
  | succ fuel inductionHypothesis =>
    intro board since room done inside settled ran
    unfold frameLoop at ran
    dsimp only at ran
    split at ran
    · cases ran
      exact ⟨trivial, room, inside⟩
    · rename_i running
      have lasts : board.beam.brk = false := by
        simp only [Bool.or_eq_true, not_or, Bool.not_eq_true] at running
        exact running.1
      split at ran
      · cases ran
        exact ⟨trivial, room, inside.begun.set, inside.begun.phase⟩
      · have fits : board.beginIteration.pendingCycles * 4 ≤ room :=
          Nat.le_trans (board.passClocks_le (settled lasts)) (inside.phase.lasts lasts)
        obtain ⟨sound, after⟩ := (singleStep_sound inside.begun).1 fits
        have next : (board.beginIteration.singleStep true).beam.brk = false →
            (board.beginIteration.singleStep true).between = 0 ∨
              (board.beginIteration.singleStep true).instrTime = 0 :=
          fun open' => .inr ((board.beginIteration.singleStep_spec true).2.2.1 open').1
        cases later : (board.beginIteration.singleStep true).frameLoop true fuel with
        | none =>
          rw [later] at ran
          cases ran
        | some rest =>
          rw [later] at ran
          cases ran
          obtain ⟨others, left, last⟩ := inductionHypothesis _ _ _ rest after next later
          dsimp only
          rw [List.flatMap_cons, PixelEvent.sound_append, List.foldl_append]
          exact ⟨⟨sound, others⟩, left, last⟩

/-- The loop of `execute_frame` without updates stores nothing. -/
theorem frameLoop_unseen {options : ScreenOptions} (fuel : Nat) :
    ∀ (board : Board δ) (done : List (Board δ) × Board δ), board.picture.Set options →
      board.picture.canvas = ⟨false, 0⟩ → board.frameLoop false fuel = some done →
        let events := done.1.flatMap (pixelEvents · false)
        PixelEvent.Sound options [] events ∧ events.foldl PixelEvent.observe [] = [] ∧
          done.2.picture.Set options ∧ done.2.picture.canvas = ⟨false, 0⟩ := by
  induction fuel with
  | zero => exact fun board done set unseen ran => nomatch ran
  | succ fuel inductionHypothesis =>
    intro board done set unseen ran
    rw [← board.beginIteration_picture] at set unseen
    unfold frameLoop at ran
    dsimp only at ran
    split at ran
    · cases ran
      rw [board.beginIteration_picture] at set unseen
      exact ⟨trivial, rfl, set, unseen⟩
    · split at ran
      · cases ran
        exact ⟨trivial, rfl, set, unseen⟩
      · obtain ⟨sound, nothing, kept, after⟩ := singleStep_unseen set unseen
        cases later : (board.beginIteration.singleStep false).frameLoop false fuel with
        | none =>
          rw [later] at ran
          cases ran
        | some rest =>
          rw [later] at ran
          cases ran
          obtain ⟨others, still, last⟩ := inductionHypothesis _ rest kept after later
          dsimp only
          rw [List.flatMap_cons, PixelEvent.sound_append, List.foldl_append, nothing]
          exact ⟨⟨sound, others⟩, still, last⟩

/-- What `execute_frame` does to the frame buffer when it executes the listed instructions. -/
def frameEventsOf (board : Board δ) (executed : List (Board δ)) (updateScreen : Bool) :
    List PixelEvent :=
  if board.debuggerInterrupt then []
  else .reset :: executed.flatMap (pixelEvents · updateScreen)

/-- A frame stores everything where it must be, and leaves a phase. -/
theorem executeFrame_sound {options : ScreenOptions} {since : List Nat} {board after : Board δ}
    {room : Nat} (inside : board.InPhase options since room) {updateScreen : Bool}
    {executed : List (Board δ)} (ran : board.executeFrame updateScreen = some (executed, after)) :
    PixelEvent.Sound options since (board.frameEventsOf executed updateScreen) ∧
      ∃ left, after.InPhase options
        ((board.frameEventsOf executed updateScreen).foldl PixelEvent.observe since) left := by
  unfold executeFrame at ran
  unfold frameEventsOf
  cases stopped : board.debuggerInterrupt with
  | true =>
    rw [stopped, if_pos rfl] at ran
    cases ran
    exact ⟨trivial, room, inside⟩
  | false =>
    rw [stopped, if_neg Bool.false_ne_true] at ran
    have set : board.startFrame.picture.Set options :=
      ⟨inside.set.firstVisibleLine, inside.set.centerOffset, inside.set.screenWidth⟩
    have unseen : board.startFrame.picture.canvas = ⟨false, 0⟩ := rfl
    rw [if_neg Bool.false_ne_true]
    cases updateScreen with
    | true =>
      obtain ⟨start, phase, _⟩ := Phase.unseen options board.startFrame.beam
      have begun : board.startFrame.InPhase options [] start := ⟨set, phase⟩
      obtain ⟨sound, left, last⟩ :=
        frameLoop_sound frameFuel board.startFrame [] start _ begun (fun _ => .inl rfl) ran
      exact ⟨⟨trivial, sound⟩, left, last⟩
    | false =>
      obtain ⟨sound, nothing, kept, last⟩ :=
        frameLoop_unseen frameFuel board.startFrame _ set unseen ran
      obtain ⟨left, phase, _⟩ := Phase.unseen options after.beam
      refine ⟨⟨trivial, sound⟩, left, kept, ?_⟩
      rw [← last] at phase
      rw [List.foldl_cons]
      show Phase options ((executed.flatMap (pixelEvents · false)).foldl PixelEvent.observe [])
        after.beam after.picture.canvas left
      rw [nothing]
      exact phase

/-! ### Runs -/

/-- The steps of a run that matter to the picture. -/
inductive DrawLabel (δ : Type)
  /-- `Board::execute_frame`, with the instructions it executes. -/
  | executeFrame (started : Board δ) (executed : List (Board δ)) (updateScreen : Bool)
  /-- `Board::single_step(true)`. -/
  | singleStep (started : Board δ)
  /-- Anything that leaves the filler alone. -/
  | elsewhere

/-- What a step does to the frame buffer. -/
def DrawLabel.events : DrawLabel δ → List PixelEvent
  | .executeFrame started executed updateScreen => started.frameEventsOf executed updateScreen
  | .singleStep started => started.pixelEvents true
  | .elsewhere => []

/-- One step of a run. -/
inductive DrawStep : Board δ → DrawLabel δ → Board δ → Prop
  /-- `Board::execute_frame`. -/
  | executeFrame (board after : Board δ) (executed : List (Board δ)) (updateScreen : Bool)
      (ran : board.executeFrame updateScreen = some (executed, after)) :
    DrawStep board (.executeFrame board executed updateScreen) after
  /-- `Board::single_step(true)`. -/
  | singleStep (board : Board δ) : DrawStep board (.singleStep board) (board.singleStep true)
  /-- Between the calls the debugger and the program load may do anything to the machine. -/
  | elsewhere (board after : Board δ) (beam : after.beam = board.beam)
      (picture : after.picture.SameCanvas board.picture) :
    DrawStep board .elsewhere after

/-- A step that has room for its pixels: a single step does not take the beam past a whole frame
and on to the first stored pixel of the next one. -/
def DrawLabel.StaysInside (options : ScreenOptions) : DrawLabel δ → Prop
  | .singleStep started =>
    started.pendingCycles * 4 ≤ options.room started.beam started.picture.canvas
  | .executeFrame .. | .elsewhere => True

/-- From a phase, a step stores everything where it must be and leaves a phase again exactly when
it has room for its pixels. -/
theorem DrawStep.sound {options : ScreenOptions} {since : List Nat} {board after : Board δ}
    {room : Nat} {label : DrawLabel δ} (step : DrawStep board label after)
    (inside : board.InPhase options since room) :
    (label.StaysInside options →
        PixelEvent.Sound options since label.events ∧
          ∃ left, after.InPhase options (label.events.foldl PixelEvent.observe since) left) ∧
      (¬ label.StaysInside options → ¬ PixelEvent.Sound options since label.events) := by
  cases step with
  | executeFrame after executed updateScreen ran =>
    exact ⟨fun stays => executeFrame_sound inside ran, fun leaves => absurd trivial leaves⟩
  | singleStep =>
    obtain ⟨sound, unsound⟩ := singleStep_sound inside
    unfold DrawLabel.StaysInside
    dsimp only
    rw [← inside.phase.room_eq]
    refine ⟨fun fits => ?_, fun short => unsound (by omega)⟩
    obtain ⟨stored, last⟩ := sound fits
    exact ⟨stored, _, last⟩
  | elsewhere after beam picture =>
    refine ⟨fun stays => ⟨trivial, room, picture.set inside.set, ?_⟩,
      fun leaves => absurd trivial leaves⟩
    rw [beam, picture.canvas]
    exact inside.phase

/-- From a phase, a run stores everything where it must be exactly when each of its steps has
room for its pixels. -/
theorem run_sound {options : ScreenOptions} {board final : Board δ} {labels : List (DrawLabel δ)}
    (run : Transition.Run DrawStep board labels final) :
    ∀ (since : List Nat) (room : Nat), board.InPhase options since room →
      (PixelEvent.Sound options since (labels.flatMap DrawLabel.events) ↔
        ∀ label ∈ labels, label.StaysInside options) := by
  induction run with
  | nil state =>
    intro since room inside
    exact iff_of_true trivial fun label listed => absurd listed List.not_mem_nil
  | cons step rest inductionHypothesis =>
    intro since room inside
    obtain ⟨sound, unsound⟩ := step.sound inside
    rw [List.flatMap_cons, PixelEvent.sound_append, List.forall_mem_cons]
    rename_i label _
    by_cases stays : label.StaysInside options
    · obtain ⟨stored, left, last⟩ := sound stays
      rw [and_iff_right stored, and_iff_right stays]
      exact inductionHypothesis _ left last
    · exact iff_of_false (fun both => unsound stays both.1) (fun both => stays both.1)

omit [Chips δ] in
/-- A machine switched on is in a phase. -/
theorem initFiller_inPhase (chips : δ) (boot : List Byte) (options : ScreenOptions) :
    ∃ room, ((powerOn chips boot).initFiller options).InPhase options [] room ∧
      room = Beam.framePixels + options.firstStored := by
  have set : ((powerOn chips boot).initFiller options).picture.Set options := ⟨rfl, rfl, rfl⟩
  have canvas : ((powerOn chips boot).initFiller options).picture.canvas = ⟨false, 0⟩ := rfl
  have position : ((powerOn chips boot).initFiller options).beam.position = 0 := by
    show 0 * 768 + 0 = 0
    rw [Nat.zero_mul]
  have phase := Phase.above ((powerOn chips boot).initFiller options).beam
    options.firstVisibleLine_pos
  rw [position, ← canvas] at phase
  exact ⟨_, ⟨set, phase⟩, by rw [Nat.sub_zero]⟩

/-- In a run from a machine switched on, every pixel is stored inside the buffer and every shown
line fills its row, `screen_width` pixels, exactly when each step has room for its pixels. -/
theorem pixels_inside_iff {options : ScreenOptions} {chips : δ} {boot : List Byte}
    {final : Board δ} {labels : List (DrawLabel δ)}
    (run : Transition.Run DrawStep ((powerOn chips boot).initFiller options) labels final) :
    PixelEvent.Sound options [] (labels.flatMap DrawLabel.events) ↔
      ∀ label ∈ labels, label.StaysInside options := by
  obtain ⟨room, inside, _⟩ := initFiller_inPhase chips boot options
  exact run_sound run [] room inside

/-- The first step of a machine switched on has room. -/
theorem pixels_inside_powerOn :
    PixelEvent.Sound .standard []
      ([DrawLabel.singleStep ((powerOn () []).initFiller .standard)].flatMap
        DrawLabel.events) := by
  refine (pixels_inside_iff (.cons (.singleStep _) (.nil _))).mpr ?_
  intro label listed
  rw [List.mem_singleton.mp listed]
  show ((powerOn () []).initFiller .standard).pendingCycles * 4 ≤
    ScreenOptions.standard.room (powerOn () []).beam ⟨false, 0⟩
  decide

/-- The labels of single steps in a row. -/
def stepLabels (board : Board δ) : Nat → List (DrawLabel δ)
  | 0 => []
  | count + 1 => .singleStep board :: stepLabels (board.singleStep true) count

/-- Single steps in a row are a run. -/
theorem stepLabels_run (count : Nat) :
    ∀ board : Board δ, Transition.Run DrawStep board (board.stepLabels count)
      ((singleStep · true)^[count] board) := by
  induction count with
  | zero => exact fun board => .nil board
  | succ count inductionHypothesis =>
    intro board
    exact .cons (.singleStep board) (inductionHypothesis (board.singleStep true))

/-- Each single step takes at least sixteen pixels of the room. -/
theorem stepLabels_room {options : ScreenOptions} (count : Nat) :
    ∀ {board : Board δ} {since : List Nat} {room : Nat}, board.InPhase options since room →
      (∀ label ∈ board.stepLabels count, label.StaysInside options) → 16 * count ≤ room := by
  induction count with
  | zero => exact fun inside stays => Nat.zero_le _
  | succ count inductionHypothesis =>
    intro board since room inside stays
    have fits : board.pendingCycles * 4 ≤ room := by
      have here := stays _ List.mem_cons_self
      unfold DrawLabel.StaysInside at here
      dsimp only at here
      rw [← inside.phase.room_eq] at here
      exact here
    have least := board.four_le_videoCycles
    have pending : board.videoCycles ≤ board.pendingCycles := Nat.le_add_left ..
    have later := inductionHypothesis ((singleStep_sound inside).1 fits).2
      fun label listed => stays label (List.mem_cons_of_mem _ listed)
    omega

/-- Stepping the machine from power on, for 16136 instructions, stores a pixel outside the buffer:
the steps pass the end of the frame and no frame is started. -/
theorem stepping_overflows :
    ¬ PixelEvent.Sound .standard []
      (((powerOn () []).initFiller .standard).stepLabels 16136 |>.flatMap DrawLabel.events) := by
  obtain ⟨room, inside, roomEq⟩ := initFiller_inPhase () [] .standard
  intro sound
  have stays := (run_sound (stepLabels_run 16136 _) [] room inside).mp sound
  have most := stepLabels_room 16136 inside stays
  have total : Beam.framePixels + ScreenOptions.standard.firstStored = 258168 := by decide
  omega

end Board

end VectorDebugger

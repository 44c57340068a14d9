import VectorDebugger.Debugger.DebugAdapter
import VectorDebugger.Machine.DrawnPixels

/-!
# The state of the beam

The debugger reports where the beam is and what it draws there without drawing. The report should
describe the next step of `PixelFiller::fill1`: whether it stores a pixel of the picture, where, and
the colour index that a palette write would get.
-/

namespace VectorDebugger

/-- `BeamState`. -/
structure BeamState where
  /-- `frame`. -/
  frame : Nat
  /-- `vCycleInFrame`. -/
  vCycleInFrame : Nat
  /-- `rasterLine`. -/
  rasterLine : Nat
  /-- `vCycleInLine`. -/
  vCycleInLine : Nat
  /-- `rpixel`. -/
  rpixel : BitVec 32
  /-- `visible`. -/
  visible : Bool
  /-- `visibleX`. -/
  visibleX : Int
  /-- `visibleY`. -/
  visibleY : Int
  /-- `frameVCycles`. -/
  frameVCycles : Nat
  /-- `lineVCycles`. -/
  lineVCycles : Nat
  /-- `frameLines`. -/
  frameLines : Nat
  /-- `cpuPc`. -/
  cpuPc : Word
  /-- `cpuOpcode`. -/
  cpuOpcode : Byte
  /-- `hasPaletteIndex`. -/
  hasPaletteIndex : Bool
  /-- `paletteIndex`. -/
  paletteIndex : Int
  /-- `paletteValue`. -/
  paletteValue : Byte
  /-- `borderIndex`. -/
  borderIndex : Nat
  /-- `available`. -/
  available : Bool

/-- `IO::RawPaletteByte`. -/
def Palette.rawPaletteByte (palette : Palette) (index : Nat) : Byte := palette.raw (index &&& 0x0f)

namespace Picture

/-- `PixelFiller::currentColorIndex`. -/
def currentColorIndex (picture : Picture) (rasterPixel : Nat) : Nat :=
  if picture.overBorder (rasterPixel - 24) then picture.borderIndex
  else
    let p := picture.pixel32
    (((p >>> 4) &&& 8) ||| ((p >>> 13) &&& 4) ||| ((p >>> 22) &&& 2) ||| ((p >>> 31) &&& 1)).toNat

/-- The next step of `PixelFiller::fill1` stores a pixel of the picture. -/
def Emits (picture : Picture) (rasterPixel : Nat) : Prop :=
  picture.overBorder (rasterPixel - 24) = false ∧ picture.drawIndices rasterPixel ≠ []

end Picture

namespace Board

variable {δ : Type} [Chips δ]

/-- A run whose steps stay inside the buffer leaves a phase. -/
theorem run_inPhase {options : ScreenOptions} {board final : Board δ}
    {labels : List (DrawLabel δ)} (run : Transition.Run DrawStep board labels final)
    (stays : ∀ label ∈ labels, label.StaysInside options)
    (start : ∃ since room, board.InPhase options since room) :
    ∃ since room, final.InPhase options since room := by
  induction run with
  | nil board => exact start
  | cons step rest inductionHypothesis =>
    obtain ⟨since, room, inside⟩ := start
    obtain ⟨-, left, last⟩ := (step.sound inside).1 (stays _ List.mem_cons_self)
    exact inductionHypothesis (fun label listed => stays label (List.mem_cons_of_mem _ listed))
      ⟨_, left, last⟩

end Board

/-- The lines above and below the picture. -/
def vborderAt (line : Nat) : Bool := decide (line < 40) || decide (line ≥ 40 + 256)

namespace Screen

variable {δ : Type} [Chips δ]

/-- The vertical border goes by the line of the beam. -/
def BorderedByLine (screen : Screen δ) : Prop :=
  screen.picture.vborder = vborderAt screen.beam.rasterLine

theorem commits_vborder (screen : Screen δ) (commitTime commitTimePal : Int) (clk index : Nat) :
    (screen.commits commitTime commitTimePal clk index).picture.vborder = screen.picture.vborder ∧
      (screen.commits commitTime commitTimePal clk index).beam = screen.beam := by
  have committed : screen.commit.picture.vborder = screen.picture.vborder := by
    unfold commit
    dsimp only
    split
    · rfl
    · rfl
  have first : (if (clk : Int) = commitTime then screen.commit else screen).picture.vborder =
        screen.picture.vborder ∧
      (if (clk : Int) = commitTime then screen.commit else screen).beam = screen.beam := by
    split
    · exact ⟨committed, rfl⟩
    · exact ⟨rfl, rfl⟩
  unfold commits
  dsimp only
  by_cases palette : (clk : Int) = commitTimePal
  · rw [if_pos palette]
    exact first
  · rw [if_neg palette]
    exact first

omit [Chips δ] in
/-- Moving the beam sets the vertical border where the line changes. -/
theorem BorderedByLine.advance {screen : Screen δ} (bordered : screen.BorderedByLine)
    (updateScreen : Bool) (clk : Nat) : (screen.advance updateScreen clk).BorderedByLine := by
  have moved : (if screen.beam.endsLine then
        screen.picture.advanceLine updateScreen (screen.beam.rasterLine + 1)
      else screen.picture).vborder = vborderAt screen.beam.advance.rasterLine := by
    unfold Beam.advance
    by_cases ends : screen.beam.rasterPixel + 2 = 768
    · have line : screen.beam.endsLine = true := beq_iff_eq.mpr ends
      rw [if_pos line, dif_pos ends]
      split
      · rename_i last
        show vborderAt (screen.beam.rasterLine + 1) = vborderAt 0
        rw [last]
        decide
      · rfl
    · have line : ¬ screen.beam.endsLine = true := fun line => ends (beq_iff_eq.mp line)
      rw [if_neg line, dif_neg ends]
      exact bordered
  unfold Screen.advance BorderedByLine
  dsimp only
  split
  · exact moved
  · split
    · exact moved
    · exact moved

theorem BorderedByLine.clock {screen : Screen δ} (bordered : screen.BorderedByLine)
    (updateScreen : Bool) (commitTime commitTimePal : Int) (clk : Nat) :
    (screen.clock updateScreen commitTime commitTimePal clk).2.BorderedByLine := by
  have found : ∀ (memory : Memory) (rpixel : Int) (border : Bool),
      (screen.picture.getColorIndex memory rpixel border).2.vborder = screen.picture.vborder := by
    intro memory rpixel border
    unfold Picture.getColorIndex
    split
    · rfl
    · dsimp only
      split
      · rfl
      · rfl
  have drawn : ∀ (picture : Picture) (palette : Palette) (rasterPixel index : Nat)
      (border : Bool),
      (picture.draw palette rasterPixel index border).vborder = picture.vborder := by
    intro picture palette rasterPixel index border
    unfold Picture.draw
    dsimp only
    split
    · split
      · rfl
      · rfl
    · rfl
  unfold Screen.clock
  dsimp only
  apply BorderedByLine.advance
  obtain ⟨committed, beam⟩ := commits_vborder
    ({ screen with
      picture := (screen.picture.getColorIndex screen.memory (screen.beam.rasterPixel - 24)
        (screen.picture.overBorder (screen.beam.rasterPixel - 24))).2 } : Screen δ)
    commitTime commitTimePal clk
    (screen.picture.getColorIndex screen.memory (screen.beam.rasterPixel - 24)
      (screen.picture.overBorder (screen.beam.rasterPixel - 24))).1
  refine (drawn _ _ _ _ _).trans (committed.trans ((found _ _ _).trans ?_))
  exact bordered.trans (congrArg (fun beam => vborderAt beam.rasterLine) beam.symm)

theorem BorderedByLine.clocks (updateScreen : Bool) (commitTime commitTimePal : Int)
    (passes : Nat) :
    ∀ (clk index : Nat) {screen : Screen δ}, screen.BorderedByLine →
      (Screen.clocks updateScreen commitTime commitTimePal passes clk index
        screen).2.1.BorderedByLine := by
  induction passes with
  | zero => exact fun clk index screen bordered => bordered
  | succ passes inductionHypothesis =>
    exact fun clk index screen bordered =>
      inductionHypothesis (clk + 2) _ (bordered.clock updateScreen commitTime commitTimePal clk)

theorem BorderedByLine.fill1 {screen : Screen δ} (bordered : screen.BorderedByLine)
    (clocks : Nat) (commitTime commitTimePal : Int) (updateScreen : Bool) :
    (screen.fill1 clocks commitTime commitTimePal updateScreen).1.BorderedByLine := by
  have passed := BorderedByLine.clocks updateScreen commitTime commitTimePal ((clocks + 1) / 2) 0 0
    bordered
  unfold Screen.fill1
  dsimp only
  obtain ⟨committed, beam⟩ := commits_vborder
    (Screen.clocks updateScreen commitTime commitTimePal ((clocks + 1) / 2) 0 0 screen).2.1
    commitTime commitTimePal (2 * ((clocks + 1) / 2))
    (Screen.clocks updateScreen commitTime commitTimePal ((clocks + 1) / 2) 0 0 screen).1
  refine committed.trans (passed.trans ?_)
  exact congrArg (fun beam => vborderAt beam.rasterLine) beam.symm

end Screen

/-- An instruction keeps the vertical border with the line. -/
theorem Board.singleStep_bordered {δ : Type} [Chips δ] {board : Board δ}
    (bordered : board.screen.BorderedByLine) (updateScreen : Bool) :
    (board.singleStep updateScreen).screen.BorderedByLine := by
  have drawn : (board.picturing updateScreen).1.BorderedByLine :=
    Screen.BorderedByLine.fill1 (show board.ready.BorderedByLine from bordered) _ _ _ _
  have picture := (board.singleStep_pictured updateScreen).1
  have observed : (board.picturing updateScreen).1.raster = board.drawing.1 :=
    (Screen.raster_fill1 board.ready _ _ _ updateScreen).1
  have beam : (board.singleStep updateScreen).beam = (board.picturing updateScreen).1.beam :=
    (board.singleStep_stepOf updateScreen).beam.trans (congrArg Raster.beam observed).symm
  refine (congrArg Picture.vborder picture).trans (drawn.trans ?_)
  exact congrArg (fun beam => vborderAt beam.rasterLine) beam.symm

namespace DebugAdapter

variable {δ : Type} [Chips δ]

/-- `DebugAdapter::getBeamState`. -/
def getBeamState (target : DebugAdapter δ) : BeamState :=
  let picture := target.board.picture
  let rline := target.board.beam.rasterLine
  let rpixelP := target.board.beam.rasterPixel
  let bmpX : Int := rpixelP - picture.centerOffset
  let bmpY : Int := rline - picture.firstVisibleLine
  let visible := picture.visible && !picture.vborder && decide (bmpX ≥ 0) &&
    decide (bmpX < picture.screenWidth) && decide (bmpY ≥ 0)
  let index := picture.currentColorIndex rpixelP
  { frame := target.board.frameNo
    vCycleInFrame := rline * 768 + rpixelP
    rasterLine := rline
    vCycleInLine := rpixelP
    rpixel := BitVec.ofInt 32 (rpixelP - 24)
    visible
    visibleX := if visible then bmpX else -1
    visibleY := if visible then bmpY else -1
    frameVCycles := 768 * 312
    lineVCycles := 768
    frameLines := 312
    cpuPc := target.pc
    cpuOpcode := target.peekMemory target.pc
    hasPaletteIndex := !picture.vborder
    paletteIndex := if !picture.vborder then index else -1
    paletteValue := if !picture.vborder then target.board.palette.rawPaletteByte index else 0
    borderIndex := target.board.machine.io.borderIndex.toNat
    available := true }

/-- A report describes the next step: it is visible exactly when a pixel of the picture is stored,
its place is where that pixel goes, and its index is the one that the step finds, in whatever
memory. -/
structure Describes (target : DebugAdapter δ) (state : BeamState) : Prop where
  visible : state.visible = true ↔ target.board.picture.Emits target.board.beam.rasterPixel
  place : target.board.picture.Emits target.board.beam.rasterPixel →
    0 ≤ state.visibleX ∧ state.visibleX < target.board.picture.screenWidth ∧
      state.visibleY * target.board.picture.screenWidth + state.visibleX =
        target.board.picture.bmpofs
  index : state.hasPaletteIndex = true → ∀ memory,
    state.paletteIndex =
        (target.board.picture.getColorIndex memory (target.board.beam.rasterPixel - 24)
          (target.board.picture.overBorder (target.board.beam.rasterPixel - 24))).1 ∧
      state.paletteValue = target.board.palette.rawPaletteByte state.paletteIndex.toNat

/-- The beam is in a border beside the picture that is shown. -/
def InSideBorder (options : ScreenOptions) (board : Board δ) : Prop :=
  board.picture.visible = true ∧ board.picture.vborder = false ∧
    options.inWindow board.beam.rasterPixel = true ∧
      (board.beam.rasterPixel < 152 ∨ 664 ≤ board.beam.rasterPixel)

instance (options : ScreenOptions) (board : Board δ) : Decidable (InSideBorder options board) :=
  inferInstanceAs (Decidable (_ ∧ _ ∧ _ ∧ (_ ∨ _)))

omit [Chips δ] in
/-- The border in terms of the raster. -/
theorem overBorder_eq (picture : Picture) (rasterPixel : Nat) :
    picture.overBorder (rasterPixel - 24) = true ↔
      picture.vborder = true ∨ rasterPixel < 152 ∨ 664 ≤ rasterPixel := by
  unfold Picture.overBorder
  simp only [Bool.or_eq_true, decide_eq_true_eq, or_assoc]
  have sides : ((rasterPixel : Int) - 24 < (768 - 512) / 2 ∨
      (rasterPixel : Int) - 24 ≥ 768 - (768 - 512) / 2) ↔
        rasterPixel < 152 ∨ 664 ≤ rasterPixel := by omega
  exact or_congr Iff.rfl sides

/-- Away from the fetches the index is the one that the next step finds. -/
theorem getColorIndex_current (picture : Picture) (memory : Memory) (rasterPixel : Nat)
    (between : rasterPixel % 16 ≠ 8) :
    (picture.getColorIndex memory (rasterPixel - 24)
      (picture.overBorder (rasterPixel - 24))).1 = picture.currentColorIndex rasterPixel := by
  have loaded : ¬ ((rasterPixel : Int) - 24) % 16 = 0 := by omega
  unfold Picture.getColorIndex Picture.currentColorIndex
  split
  · rfl
  · rfl

variable {target : DebugAdapter δ} {options : ScreenOptions} {since : List Nat} {room : Nat}

omit [Chips δ] in
/-- The shown columns, with the options of the filler. -/
theorem drawIndices_ne {picture : Picture} (set : picture.Set options) (rasterPixel : Nat) :
    picture.drawIndices rasterPixel ≠ [] ↔
      picture.visible = true ∧ options.inWindow rasterPixel = true := by
  have length := (picture.drawIndices_canvas set rasterPixel).2
  rw [← Bool.and_eq_true]
  cases shown : picture.visible && options.inWindow rasterPixel with
  | false =>
    rw [shown, if_neg Bool.false_ne_true] at length
    exact iff_of_false (not_not.mpr (List.length_eq_zero_iff.mp length)) Bool.false_ne_true
  | true =>
    rw [shown, if_pos rfl] at length
    refine iff_of_true (fun nothing => ?_) rfl
    rw [nothing] at length
    cases length

omit [Chips δ] in
/-- Where a shown pixel goes. -/
theorem place_of_phase {board : Board δ} (inside : board.InPhase options since room)
    (some : 0 < room) (visible : board.picture.visible = true)
    (window : options.inWindow board.beam.rasterPixel = true) :
    options.firstVisibleLine ≤ board.beam.rasterLine ∧
      board.picture.bmpofs =
        options.rowStart board.beam.rasterLine + options.columns board.beam.rasterPixel := by
  obtain ⟨set, phase⟩ := inside
  have pixel := board.beam.pixel_lt
  have even := board.beam.pixel_even
  generalize canvasEq : board.picture.canvas = canvas at phase
  have seen : canvas.visible = true := by
    rw [← canvasEq]
    exact visible
  have offset : board.picture.bmpofs = canvas.bmpofs := by
    rw [← canvasEq]
    rfl
  rw [offset]
  cases phase with
  | above beam line => cases seen
  | hidden beam line => cases seen
  | shown beam line => exact ⟨line, rfl⟩
  | full beam ended before =>
    exfalso
    have line : options.firstVisibleLine ≤ board.beam.rasterLine := of_decide_eq_true seen
    have place : board.beam.position = board.beam.rasterLine * 768 + board.beam.rasterPixel := rfl
    have target : options.firstStored =
      options.firstVisibleLine * 768 + options.firstColumn := rfl
    have first : options.firstColumn = options.centerOffset + options.centerOffset % 2 := rfl
    have column := options.firstColumn_le
    have from_ : options.centerOffset ≤ board.beam.rasterPixel := by
      unfold ScreenOptions.inWindow at window
      rw [Bool.and_eq_true] at window
      exact of_decide_eq_true window.1
    omega

omit [Chips δ] in
/-- When the report says that the beam is visible. -/
theorem getBeamState_visible (inside : target.board.InPhase options since room)
    (some : 0 < room) :
    target.getBeamState.visible = true ↔
      target.board.picture.visible = true ∧ target.board.picture.vborder = false ∧
        options.inWindow target.board.beam.rasterPixel = true := by
  have set := inside.set
  have window : options.inWindow target.board.beam.rasterPixel = true ↔
      (target.board.beam.rasterPixel : Int) - target.board.picture.centerOffset ≥ 0 ∧
        (target.board.beam.rasterPixel : Int) - target.board.picture.centerOffset <
          target.board.picture.screenWidth := by
    rw [set.centerOffset, set.screenWidth]
    unfold ScreenOptions.inWindow
    rw [Bool.and_eq_true, decide_eq_true_eq, decide_eq_true_eq]
    omega
  unfold getBeamState
  simp only [Bool.and_eq_true, Bool.not_eq_true', decide_eq_true_eq]
  constructor
  · rintro ⟨⟨⟨⟨visible, vborder⟩, left⟩, right⟩, -⟩
    exact ⟨visible, vborder, window.mpr ⟨left, right⟩⟩
  · rintro ⟨visible, vborder, shown⟩
    have line := (place_of_phase inside some visible shown).1
    refine ⟨⟨⟨⟨visible, vborder⟩, (window.mp shown).1⟩, (window.mp shown).2⟩, ?_⟩
    rw [set.firstVisibleLine]
    omega

omit [Chips δ] in
/-- The report describes the next step in a phase, away from the fetches, exactly when the beam is
not in a shown border beside the picture, and the border is even where a pixel is stored. -/
theorem describes_of_phase (inside : target.board.InPhase options since room) (some : 0 < room)
    (between : target.board.beam.rasterPixel % 16 ≠ 8) :
    target.Describes target.getBeamState ↔
      ¬ InSideBorder options target.board ∧
        (target.board.picture.Emits target.board.beam.rasterPixel →
          options.borderWidth % 2 = 0) := by
  have visible := getBeamState_visible inside some
  have emits : target.board.picture.Emits target.board.beam.rasterPixel ↔
      (target.board.picture.vborder = false ∧ 152 ≤ target.board.beam.rasterPixel ∧
        target.board.beam.rasterPixel < 664) ∧
      target.board.picture.visible = true ∧
        options.inWindow target.board.beam.rasterPixel = true := by
    refine and_congr ?_ (drawIndices_ne inside.set _)
    rw [← Bool.not_eq_true, overBorder_eq]
    rw [not_or, not_or, Bool.not_eq_true, not_lt, not_le]
  have indices : target.getBeamState.hasPaletteIndex = true → ∀ memory,
      target.getBeamState.paletteIndex =
          (target.board.picture.getColorIndex memory (target.board.beam.rasterPixel - 24)
            (target.board.picture.overBorder (target.board.beam.rasterPixel - 24))).1 ∧
        target.getBeamState.paletteValue =
          target.board.palette.rawPaletteByte target.getBeamState.paletteIndex.toNat := by
    intro has memory
    have open_ : (!target.board.picture.vborder) = true := has
    rw [getColorIndex_current _ memory _ between]
    unfold getBeamState
    dsimp only
    rw [if_pos open_, if_pos open_]
    exact ⟨rfl, rfl⟩
  have places : target.board.picture.Emits target.board.beam.rasterPixel →
      ((0 ≤ target.getBeamState.visibleX ∧
        target.getBeamState.visibleX < target.board.picture.screenWidth ∧
        target.getBeamState.visibleY * target.board.picture.screenWidth +
          target.getBeamState.visibleX = target.board.picture.bmpofs) ↔
        options.borderWidth % 2 = 0) := by
    intro stored
    obtain ⟨⟨vborder, -, -⟩, seen, shown⟩ := emits.mp stored
    obtain ⟨line, place⟩ := place_of_phase inside some seen shown
    have reported := visible.mpr ⟨seen, vborder, shown⟩
    have x : target.getBeamState.visibleX =
        (target.board.beam.rasterPixel : Int) - options.centerOffset := by
      rw [← inside.set.centerOffset]
      exact if_pos reported
    have y : target.getBeamState.visibleY =
        ((target.board.beam.rasterLine - options.firstVisibleLine : Nat) : Int) := by
      have reportedY : target.getBeamState.visibleY =
          (target.board.beam.rasterLine : Int) - target.board.picture.firstVisibleLine :=
        if_pos reported
      rw [reportedY, inside.set.firstVisibleLine]
      omega
    have border := options.border_le
    have even := target.board.beam.pixel_even
    have window : options.centerOffset ≤ target.board.beam.rasterPixel ∧
        target.board.beam.rasterPixel < options.centerOffset + options.screenWidth := by
      unfold ScreenOptions.inWindow at shown
      rw [Bool.and_eq_true, decide_eq_true_eq, decide_eq_true_eq] at shown
      exact shown
    have columns : options.columns target.board.beam.rasterPixel =
      min options.screenWidth (target.board.beam.rasterPixel - options.firstColumn) := rfl
    have first : options.firstColumn = options.centerOffset + options.centerOffset % 2 := rfl
    have center : options.centerOffset = 152 - options.borderWidth := rfl
    rw [x, y, inside.set.screenWidth, place, ScreenOptions.rowStart, ← Int.natCast_mul]
    omega
  constructor
  · intro describes
    refine ⟨?_, fun stored => (places stored).mp (describes.place stored)⟩
    rintro ⟨seen, vborder, shown, aside⟩
    have stored := emits.mp (describes.visible.mp (visible.mpr ⟨seen, vborder, shown⟩))
    omega
  · rintro ⟨away, even⟩
    refine ⟨?_, fun stored => (places stored).mpr (even stored), indices⟩
    rw [visible, emits]
    constructor
    · rintro ⟨seen, vborder, shown⟩
      have picture : 152 ≤ target.board.beam.rasterPixel ∧
          target.board.beam.rasterPixel < 664 := by
        by_contra aside
        exact away ⟨seen, vborder, shown, by omega⟩
      exact ⟨⟨vborder, picture⟩, seen, shown⟩
    · rintro ⟨⟨vborder, -⟩, seen, shown⟩
      exact ⟨seen, vborder, shown⟩

/-- In a run from a machine switched on whose steps stay inside the frame buffer, the report
describes the next step, where that one stays inside too and no pixels are fetched, exactly when
the beam is not in a shown border beside the picture, and the border is even where a pixel is
stored. -/
theorem beamState_describes_iff {chips : δ} {boot : List Byte} {options : ScreenOptions}
    {labels : List (Board.DrawLabel δ)} {target : DebugAdapter δ}
    (run : Transition.Run Board.DrawStep ((Board.powerOn chips boot).initFiller options) labels
      target.board)
    (stays : ∀ label ∈ labels, label.StaysInside options)
    (room : 0 < options.room target.board.beam target.board.picture.canvas)
    (between : target.board.beam.rasterPixel % 16 ≠ 8) :
    target.Describes target.getBeamState ↔
      ¬ InSideBorder options target.board ∧
        (target.board.picture.Emits target.board.beam.rasterPixel →
          options.borderWidth % 2 = 0) := by
  obtain ⟨first, start, -⟩ := Board.initFiller_inPhase chips boot options
  obtain ⟨since, left, inside⟩ := Board.run_inPhase run stays ⟨[], first, start⟩
  rw [← inside.phase.room_eq] at room
  exact describes_of_phase inside room between

/-- A machine switched on. -/
theorem beamState_describes_powerOn :
    ({ board := (Board.powerOn () []).initFiller .standard, syncedBreakpoints := []
       files := fun _ => [] } : DebugAdapter Unit).Describes
      (getBeamState
        { board := (Board.powerOn () []).initFiller .standard, syncedBreakpoints := []
          files := fun _ => [] }) :=
  (beamState_describes_iff (.nil _) (fun label listed => absurd listed List.not_mem_nil)
    (by decide) (by decide)).mpr ⟨fun aside => absurd aside.1 (by decide), fun _ => rfl⟩

/-- A machine whose program is empty, with the beam anywhere. -/
def stepping (board : Board Unit) : Board Unit :=
  { board with machine := (Board.powerOn () []).machine, instrTime := 0 }

theorem stepping_pendingCycles (board : Board Unit) : (stepping board).pendingCycles = 4 := by
  have cycles : (stepping board).videoCycles = 4 := rfl
  unfold Board.pendingCycles
  rw [Board.foldLeftover_instrTime, cycles]
  split
  · rfl
  · rfl

/-- A step of an empty program in the middle of a frame. -/
theorem stepping_brk {board : Board Unit} (lasts : board.beam.brk = false)
    (below : board.beam.position + 16 < Beam.framePixels) :
    ((stepping board).singleStep true).beam.brk = false := by
  have beam := ((stepping board).singleStep_stepOf true).beam
  rw [beam]
  unfold Board.drawing Raster.fill1
  dsimp only
  rw [Raster.commits_beam, stepping_pendingCycles]
  exact Raster.clocks_brk_of_below _ _ _ 0 _ lasts below

/-- Single steps of an empty program take the beam to any multiple of sixteen pixels. -/
theorem steps_reach (count : Nat) (short : 16 * count < Beam.framePixels) :
    ∃ labels board since room, Transition.Run Board.DrawStep
        ((Board.powerOn () []).initFiller .standard) labels board ∧
      (∀ label ∈ labels, label.StaysInside .standard) ∧
      Board.InPhase .standard since board room ∧ room + 16 * count = 258168 ∧
      board.beam.brk = false ∧ board.beam.position = 16 * count ∧
      board.screen.BorderedByLine := by
  induction count with
  | zero =>
    have whole : Beam.framePixels + ScreenOptions.standard.firstStored = 258168 := by decide
    obtain ⟨room, inside, roomEq⟩ := Board.initFiller_inPhase () [] .standard
    have place : ((Board.powerOn () []).initFiller .standard).beam.position = 0 := by
      show 0 * 768 + 0 = 0
      rw [Nat.zero_mul]
    have bordered : ((Board.powerOn () []).initFiller .standard).screen.BorderedByLine := by
      show true = vborderAt 0
      decide
    exact ⟨[], _, [], room, .nil _, fun label listed => absurd listed List.not_mem_nil, inside,
      by rw [roomEq, whole, Nat.mul_zero], rfl, by rw [place, Nat.mul_zero], bordered⟩
  | succ count inductionHypothesis =>
    obtain ⟨labels, board, since, room, run, stays, inside, left, lasts, place, bordered⟩ :=
      inductionHypothesis (by omega)
    have idle : Board.InPhase .standard since (stepping board) room := ⟨inside.set, inside.phase⟩
    have some := inside.phase.lasts lasts
    have cycles := stepping_pendingCycles board
    have enough : (stepping board).pendingCycles * 4 ≤ room := by
      rw [cycles]
      omega
    have fits : (stepping board).pendingCycles * 4 ≤
        ScreenOptions.standard.room (stepping board).beam (stepping board).picture.canvas := by
      rw [← idle.phase.room_eq]
      exact enough
    have moved := ((stepping board).singleStep_spec true).2.1
    have start : (stepping board).beam.position = 16 * count := place
    rw [cycles, start] at moved
    refine ⟨labels ++ [.elsewhere, .singleStep (stepping board)], _, _, _,
      run.append (.cons (.elsewhere board (stepping board) rfl (.refl _))
        (.cons (.singleStep _) (.nil _))), ?_, ((Board.singleStep_sound idle).1 enough).2,
      by rw [cycles]; omega, stepping_brk lasts (by omega), ?_,
      Board.singleStep_bordered (show (stepping board).screen.BorderedByLine from bordered) true⟩
    · intro label listed
      rcases List.mem_append.mp listed with before | listed
      · exact stays label before
      · rcases List.mem_cons.mp listed with rfl | listed
        · exact trivial
        · rw [List.mem_singleton.mp listed]
          exact fits
    · rw [moved, Nat.mod_eq_of_lt (show 16 * count + 4 * 4 < Beam.framePixels by omega)]
      omega

/-- The border left of the picture is reported as visible. -/
theorem sideBorder_reported : ¬ ∀ (options : ScreenOptions)
    (labels : List (Board.DrawLabel Unit)) (target : DebugAdapter Unit),
      Transition.Run Board.DrawStep ((Board.powerOn () []).initFiller options) labels
        target.board → target.Describes target.getBeamState := by
  intro describes
  obtain ⟨labels, board, since, room, run, stays, inside, left, lasts, place, bordered⟩ :=
    steps_reach 1928 (by decide)
  have pixel := board.beam.pixel_lt
  have whole : board.beam.rasterLine * 768 + board.beam.rasterPixel = 16 * 1928 := place
  have line : board.beam.rasterLine = 40 := by omega
  have column : board.beam.rasterPixel = 128 := by omega
  have vborder : board.picture.vborder = false := by
    have lineBorder : board.picture.vborder = vborderAt board.beam.rasterLine := bordered
    rw [lineBorder, line]
    decide
  have visible : board.picture.visible = true := by
    have phase := inside.phase
    generalize canvasEq : board.picture.canvas = canvas at phase
    have seen : board.picture.visible = canvas.visible := by rw [← canvasEq]; rfl
    have frame : Beam.framePixels = 239616 := by decide
    have stored : ScreenOptions.standard.firstStored = 18552 := by decide
    have first : ScreenOptions.standard.firstVisibleLine = 24 := by decide
    rw [seen]
    cases phase with
    | above beam before => omega
    | hidden beam after => omega
    | shown beam after => rfl
    | full beam ended before => exact absurd (lasts.symm.trans ended) Bool.false_ne_true
  have aside : InSideBorder .standard board := by
    refine ⟨visible, vborder, ?_, .inl ?_⟩
    · rw [column]
      decide
    · omega
  have described := describes .standard labels
    { board, syncedBreakpoints := [], files := fun _ => [] } run
  have between : board.beam.rasterPixel % 16 ≠ 8 := by omega
  exact ((describes_of_phase inside (by omega) between).mp described).1 aside

end DebugAdapter

end VectorDebugger

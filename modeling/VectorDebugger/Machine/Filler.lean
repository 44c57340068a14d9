import VectorDebugger.Machine.Io

/-!
# The beam

`PixelFiller` draws while the processor runs: it walks the beam two pixels at a time,
commits a waiting `OUT` at its own pixel, raises the frame interrupt and marks the end of
the frame. The beam itself is kept apart from the picture it draws. The picture and the
colour table are written and never read back by the machine, which `Screen.raster_clock`
and `Screen.raster_fill1` state.
-/

namespace VectorDebugger

/-- The beam of `PixelFiller`: its position and the two signals it raises. -/
structure Beam where
  /-- `raster_line`. -/
  rasterLine : Nat
  /-- `raster_pixel`. -/
  rasterPixel : Nat
  /-- End of frame, cleared by `PixelFiller::reset`. -/
  brk : Bool
  /-- Frame interrupt, cleared by the board. -/
  irq : Bool
  /-- Clock of the running fill at which `irq` was raised. -/
  irqClk : Nat
  /-- The frame has 312 lines. -/
  line_lt : rasterLine < 312
  /-- A line has 768 pixels. -/
  pixel_lt : rasterPixel < 768
  /-- The beam moves by two pixels. -/
  pixel_even : rasterPixel % 2 = 0

/-- The picture state of `PixelFiller`. -/
structure Picture where
  /-- `mode512`. -/
  mode512 : Bool
  /-- `border_index`. -/
  borderIndex : Nat
  /-- `fb_column`. -/
  fbColumn : Nat
  /-- `fb_row`. -/
  fbRow : Int
  /-- `vborder`. -/
  vborder : Bool
  /-- `visible`. -/
  visible : Bool
  /-- `bmpofs`. -/
  bmpofs : Nat
  /-- `pixel32` — the four bit planes being shifted out. -/
  pixel32 : BitVec 32
  /-- The frame buffer. -/
  pixels : Nat → BitVec 32
  /-- `first_visible_line`. -/
  firstVisibleLine : Nat
  /-- `center_offset`. -/
  centerOffset : Int
  /-- `screen_width`. -/
  screenWidth : Int

namespace Beam

/-- Pixels of one frame. -/
def framePixels : Nat := 312 * 768

/-- Distance of the beam from the start of the frame. -/
def position (beam : Beam) : Nat := beam.rasterLine * 768 + beam.rasterPixel

/-- Whether the next advance starts a line. -/
def endsLine (beam : Beam) : Bool := beam.rasterPixel + 2 == 768

/-- The beam part of `raster_pixel += 2` and `PixelFiller::advanceLine`. -/
def advance (beam : Beam) : Beam :=
  if line : beam.rasterPixel + 2 = 768 then
    if frame : beam.rasterLine + 1 = 312 then
      { beam with
        rasterLine := 0, rasterPixel := 0, brk := true
        line_lt := by omega, pixel_lt := by omega, pixel_even := by omega }
    else
      { beam with
        rasterLine := beam.rasterLine + 1, rasterPixel := 0
        line_lt := by have := beam.line_lt; omega
        pixel_lt := by omega, pixel_even := by omega }
  else
    { beam with
      rasterPixel := beam.rasterPixel + 2
      pixel_lt := by have := beam.pixel_lt; have := beam.pixel_even; omega
      pixel_even := by have := beam.pixel_even; omega }

/-- Whether the scroll register is loaded at this position. -/
def loadsScroll (beam : Beam) : Bool :=
  beam.rasterLine == 22 + 18 && beam.rasterPixel == 150

/-- Whether the frame interrupt is raised at this position. -/
def raisesIrq (beam : Beam) : Bool := beam.rasterLine == 0 && beam.rasterPixel == 174

/-- The beam after one pass of the loop of `PixelFiller::fill1` at clock `clk`. -/
def clock (beam : Beam) (clk : Nat) : Beam :=
  let moved := beam.advance
  if moved.loadsScroll then moved
  else if moved.raisesIrq then { moved with irq := true, irqClk := clk }
  else moved

/-- The beam part of `PixelFiller::reset`, which keeps the pixel counter. -/
def reset (beam : Beam) : Beam :=
  { beam with rasterLine := 0, brk := false, irq := false, line_lt := by omega }

end Beam

namespace Picture

/-- The picture part of `PixelFiller::reset`. -/
def reset (picture : Picture) : Picture :=
  { picture with
    fbColumn := 0, fbRow := 0, vborder := true, visible := false, bmpofs := 0 }

/-- `PixelFiller::fetchPixels` — one little-endian word of the interleaved memory. -/
def fetchPixels (picture : Picture) (memory : Memory) : Picture :=
  let addr := ((picture.fbColumn &&& 0xff) <<< 8) ||| (picture.fbRow.emod 256).toNat
  let byte (k : Nat) : Byte := memory.bytes (4 * (0x2000 + addr) + k)
  { picture with pixel32 := byte 3 ++ byte 2 ++ byte 1 ++ byte 0 }

/-- `PixelFiller::shiftOutPixels` — the index formed by the top bit of each plane. -/
def shiftOutPixels (picture : Picture) : Nat × Picture :=
  let p := picture.pixel32
  let modeless :=
    ((p >>> 4) &&& 8) ||| ((p >>> 13) &&& 4) ||| ((p >>> 22) &&& 2) ||| ((p >>> 31) &&& 1)
  (modeless.toNat, { picture with pixel32 := p <<< 1 })

/-- `PixelFiller::getColorIndex`. -/
def getColorIndex (picture : Picture) (memory : Memory) (rpixel : Int) (border : Bool) :
    Nat × Picture :=
  if border then (picture.borderIndex, { picture with fbColumn := 0 })
  else
    let fetched :=
      if rpixel % 16 = 0 then
        let loaded := picture.fetchPixels memory
        { loaded with fbColumn := loaded.fbColumn + 1 }
      else picture
    fetched.shiftOutPixels

/-- Whether the beam is over the border. -/
def overBorder (picture : Picture) (rpixel : Int) : Bool :=
  picture.vborder || decide (rpixel < (768 - 512) / 2) ||
    decide (rpixel ≥ 768 - (768 - 512) / 2)

/-- Store one frame buffer pixel. -/
def put (picture : Picture) (colour : BitVec 32) : Picture :=
  { picture with
    pixels := Function.update picture.pixels picture.bmpofs colour
    bmpofs := picture.bmpofs + 1 }

/-- The drawing of one pixel pair in `PixelFiller::fill1`. -/
def draw (picture : Picture) (palette : Palette) (rasterPixel index : Nat) (border : Bool) :
    Picture :=
  let bmpX : Int := rasterPixel - picture.centerOffset
  if picture.visible && decide (bmpX ≥ 0) && decide (bmpX < picture.screenWidth) then
    if picture.mode512 && !border then
      (picture.put (palette.colours (index &&& 0x03))).put (palette.colours (index &&& 0x0c))
    else (picture.put (palette.colours index)).put (palette.colours index)
  else picture

/-- The picture part of `PixelFiller::advanceLine`; `line` is the line entered, before the
wrap to line zero. -/
def advanceLine (picture : Picture) (updateScreen : Bool) (line : Nat) : Picture :=
  let row := picture.fbRow - 1
  { picture with
    fbRow := if !picture.vborder && decide (row < 0) then 0xff else row
    vborder := decide (line < 40) || decide (line ≥ 40 + 256)
    visible := if line = 312 then false
      else picture.visible || (updateScreen && line == picture.firstVisibleLine) }

end Picture

/-- What `PixelFiller` works on: its own state and the memory and ports it refers to. -/
structure Screen (δ : Type) where
  /-- The beam. -/
  beam : Beam
  /-- The picture. -/
  picture : Picture
  /-- The colour table. -/
  palette : Palette
  /-- Input and output space. -/
  io : Io δ
  /-- Banked memory. -/
  memory : Memory

/-- The part of a `Screen` that the machine can observe. -/
structure Raster (δ : Type) where
  /-- The beam. -/
  beam : Beam
  /-- Input and output space. -/
  io : Io δ
  /-- Banked memory. -/
  memory : Memory

namespace Raster

variable {δ : Type} [Chips δ]

/-- `IO::commit` at its commit clock. -/
def commit (raster : Raster δ) : Raster δ :=
  let done := raster.io.commit raster.memory
  { raster with io := done.io, memory := done.memory }

/-- `IO::commit_palette` at its commit clock. -/
def commitPalette (raster : Raster δ) : Raster δ :=
  { raster with io := raster.io.commitPalette.2 }

/-- The two commits of one clock. -/
def commits (raster : Raster δ) (commitTime commitTimePal : Int) (clk : Nat) : Raster δ :=
  let committed := if (clk : Int) = commitTime then raster.commit else raster
  if (clk : Int) = commitTimePal then committed.commitPalette else committed

/-- One pass of the loop of `PixelFiller::fill1`. -/
def clock (raster : Raster δ) (commitTime commitTimePal : Int) (clk : Nat) : Raster δ :=
  let committed := raster.commits commitTime commitTimePal clk
  { committed with beam := committed.beam.clock clk }

/-- `passes` passes from clock `clk`, with the clocks counted after the end of the frame. -/
def clocks (commitTime commitTimePal : Int) : Nat → Nat → Raster δ → Raster δ × Nat
  | 0, _, raster => (raster, 0)
  | passes + 1, clk, raster =>
    let moved := raster.clock commitTime commitTimePal clk
    let rest := clocks commitTime commitTimePal passes (clk + 2) moved
    (rest.1, (if moved.beam.brk then 2 else 0) + rest.2)

/-- `PixelFiller::fill1` on the observable part. -/
def fill1 (raster : Raster δ) (clocks : Nat) (commitTime commitTimePal : Int) :
    Raster δ × Nat :=
  let drawn := Raster.clocks commitTime commitTimePal ((clocks + 1) / 2) 0 raster
  (drawn.1.commits commitTime commitTimePal (2 * ((clocks + 1) / 2)), drawn.2 - 2)

end Raster

namespace Screen

variable {δ : Type} [Chips δ]

/-- The observable part. -/
def raster (screen : Screen δ) : Raster δ :=
  { beam := screen.beam, io := screen.io, memory := screen.memory }

/-- `IO::commit` with `onborderchange` and `onmodechange`. -/
def commit (screen : Screen δ) : Screen δ :=
  let done := screen.io.commit screen.memory
  { screen with
    io := done.io
    memory := done.memory
    picture := match done.video with
      | none => screen.picture
      | some pb => { screen.picture with
          borderIndex := (pb &&& 0x0f).toNat, mode512 := pb &&& 0x10 != 0 } }

/-- `IO::commit_palette`. -/
def commitPalette (screen : Screen δ) (index : Nat) : Screen δ :=
  let done := screen.io.commitPalette
  { screen with
    io := done.2
    palette := match done.1 with
      | none => screen.palette
      | some w8 => screen.palette.commit δ index w8 }

/-- The two commits of one clock. -/
def commits (screen : Screen δ) (commitTime commitTimePal : Int) (clk index : Nat) :
    Screen δ :=
  let committed := if (clk : Int) = commitTime then screen.commit else screen
  if (clk : Int) = commitTimePal then committed.commitPalette index else committed

/-- `PixelFiller::advanceLine` when the beam leaves a line, then the scroll register or the
frame interrupt at their own positions. -/
def advance (screen : Screen δ) (updateScreen : Bool) (clk : Nat) : Screen δ :=
  let moved := screen.beam.advance
  let picture :=
    if screen.beam.endsLine then
      screen.picture.advanceLine updateScreen (screen.beam.rasterLine + 1)
    else screen.picture
  if moved.loadsScroll then
    { screen with
      beam := moved
      picture := { picture with fbRow := screen.io.scrollStart.toNat } }
  else if moved.raisesIrq then
    { screen with beam := { moved with irq := true, irqClk := clk }, picture }
  else { screen with beam := moved, picture }

/-- One pass of the loop of `PixelFiller::fill1`, with the colour index it computed. -/
def clock (screen : Screen δ) (updateScreen : Bool) (commitTime commitTimePal : Int)
    (clk : Nat) : Nat × Screen δ :=
  let rpixel : Int := screen.beam.rasterPixel - 24
  let border := screen.picture.overBorder rpixel
  let found := screen.picture.getColorIndex screen.memory rpixel border
  let indexed := { screen with picture := found.2 }
  let committed := indexed.commits commitTime commitTimePal clk found.1
  let drawn := { committed with
    picture := committed.picture.draw committed.palette committed.beam.rasterPixel found.1 border }
  (found.1, drawn.advance updateScreen clk)

/-- `passes` passes from clock `clk`, with the last colour index and the clocks counted after
the end of the frame. -/
def clocks (updateScreen : Bool) (commitTime commitTimePal : Int) :
    Nat → Nat → Nat → Screen δ → Nat × Screen δ × Nat
  | 0, _, index, screen => (index, screen, 0)
  | passes + 1, clk, _, screen =>
    let moved := screen.clock updateScreen commitTime commitTimePal clk
    let rest := clocks updateScreen commitTime commitTimePal passes (clk + 2) moved.1 moved.2
    (rest.1, rest.2.1, (if moved.2.beam.brk then 2 else 0) + rest.2.2)

/-- `PixelFiller::fill1` — the screen and the clocks spent after the end of the frame.
`PixelFiller::fill` always comes here: its commit times are `-1`, or differ by 20, so one of
them is not zero. -/
def fill1 (screen : Screen δ) (clocks : Nat) (commitTime commitTimePal : Int)
    (updateScreen : Bool) : Screen δ × Nat :=
  let passes := (clocks + 1) / 2
  let drawn := Screen.clocks updateScreen commitTime commitTimePal passes 0 0 screen
  (drawn.2.1.commits commitTime commitTimePal (2 * passes) drawn.1, drawn.2.2 - 2)

theorem raster_commits (screen : Screen δ) (commitTime commitTimePal : Int) (clk index : Nat) :
    (screen.commits commitTime commitTimePal clk index).raster =
      screen.raster.commits commitTime commitTimePal clk := by
  unfold commits Raster.commits
  dsimp only
  split <;> split <;> rfl

omit [Chips δ] in
theorem raster_advance (screen : Screen δ) (updateScreen : Bool) (clk : Nat) :
    (screen.advance updateScreen clk).raster =
      { screen.raster with beam := screen.beam.clock clk } := by
  unfold advance Beam.clock
  dsimp only
  split
  · rfl
  · split <;> rfl

/-- What the machine observes of one pass does not depend on the picture. -/
theorem raster_clock (screen : Screen δ) (updateScreen : Bool) (commitTime commitTimePal : Int)
    (clk : Nat) :
    (screen.clock updateScreen commitTime commitTimePal clk).2.raster =
      screen.raster.clock commitTime commitTimePal clk := by
  unfold clock
  dsimp only
  rw [raster_advance]
  unfold Raster.clock
  dsimp only
  set found := screen.picture.getColorIndex screen.memory _ _
  have committed := raster_commits { screen with picture := found.2 } commitTime commitTimePal
    clk found.1
  have same : ({ screen with picture := found.2 } : Screen δ).raster = screen.raster := rfl
  rw [same] at committed
  rw [← committed]
  rfl

theorem raster_clocks (updateScreen : Bool) (commitTime commitTimePal : Int) (passes : Nat) :
    ∀ (clk index : Nat) (screen : Screen δ),
      (clocks updateScreen commitTime commitTimePal passes clk index screen).2.1.raster =
          (Raster.clocks commitTime commitTimePal passes clk screen.raster).1 ∧
        (clocks updateScreen commitTime commitTimePal passes clk index screen).2.2 =
          (Raster.clocks commitTime commitTimePal passes clk screen.raster).2 := by
  induction passes with
  | zero =>
    intro clk index screen
    exact ⟨rfl, rfl⟩
  | succ passes inductionHypothesis =>
    intro clk index screen
    have moved := raster_clock screen updateScreen commitTime commitTimePal clk
    have rest := inductionHypothesis (clk + 2)
      (screen.clock updateScreen commitTime commitTimePal clk).1
      (screen.clock updateScreen commitTime commitTimePal clk).2
    rw [moved] at rest
    have brk : (screen.clock updateScreen commitTime commitTimePal clk).2.beam.brk =
        (screen.raster.clock commitTime commitTimePal clk).beam.brk := by
      rw [← moved]
      rfl
    unfold clocks Raster.clocks
    dsimp only
    rw [rest.1, rest.2, brk]
    exact ⟨rfl, rfl⟩

/-- What the machine observes of a fill does not depend on the picture. -/
theorem raster_fill1 (screen : Screen δ) (clocks : Nat) (commitTime commitTimePal : Int)
    (updateScreen : Bool) :
    (screen.fill1 clocks commitTime commitTimePal updateScreen).1.raster =
        (screen.raster.fill1 clocks commitTime commitTimePal).1 ∧
      (screen.fill1 clocks commitTime commitTimePal updateScreen).2 =
        (screen.raster.fill1 clocks commitTime commitTimePal).2 := by
  have drawn := raster_clocks updateScreen commitTime commitTimePal ((clocks + 1) / 2) 0 0 screen
  unfold fill1 Raster.fill1
  dsimp only
  rw [raster_commits, drawn.1, drawn.2]
  exact ⟨rfl, rfl⟩

end Screen

end VectorDebugger

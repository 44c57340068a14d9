import VectorDebugger.Debugger.BeamStates
import VectorDebugger.Debugger.VramMapping

/-!
# Where a pixel is drawn from

A frame drawn with constant registers shows, at each pixel of the picture, one bit of each plane of
one column and row of the video memory. The row goes down from the scroll register, line by line,
and a column is sixteen pixels wide. The debugger's mapping goes up, with columns of four or eight.
-/

namespace VectorDebugger

/-- The planes of a column and a row, as `fetchPixels` packs them. -/
def planeWord (bytes : Nat → Byte) (column : Nat) (row : Int) : BitVec 32 :=
  let addr := ((column &&& 0xff) <<< 8) ||| (row.emod 256).toNat
  let byte (k : Nat) : Byte := bytes (4 * (0x2000 + addr) + k)
  byte 3 ++ byte 2 ++ byte 1 ++ byte 0

/-- The index that `shiftOutPixels` takes from the planes. -/
def topIndex (p : BitVec 32) : Nat :=
  (((p >>> 4) &&& 8) ||| ((p >>> 13) &&& 4) ||| ((p >>> 22) &&& 2) ||| ((p >>> 31) &&& 1)).toNat

/-- The row that is drawn on a line. -/
def drawnRow (scroll : Byte) (line : Nat) : Int := ((scroll.toNat : Int) - (line - 40)) % 256

/-- The planes that are shifted out at a pixel of a line, counted from the left of the picture. -/
def drawnWord (bytes : Nat → Byte) (scroll : Byte) (line pixel : Nat) : BitVec 32 :=
  planeWord bytes (pixel / 16) (drawnRow scroll line) <<< (pixel % 16 / 2)

/-- The colour of an index at a column of the frame buffer. -/
def drawnColour (mode512 : Bool) (palette : Palette) (index x : Nat) : BitVec 32 :=
  if mode512 then
    if x % 2 = 0 then palette.colours (index &&& 0x03) else palette.colours (index &&& 0x0c)
  else palette.colours index

/-- The pixels of the picture in the frame buffer. -/
def InPicture (x y : Nat) : Prop := 32 ≤ x ∧ x < 544 ∧ 16 ≤ y ∧ y < 272

namespace Picture

/-- The index and the planes after a pass over the picture. -/
theorem getColorIndex_inside (picture : Picture) (memory : Memory) (rpixel : Int) :
    picture.getColorIndex memory rpixel false =
      let word := if rpixel % 16 = 0 then planeWord memory.bytes picture.fbColumn picture.fbRow
        else picture.pixel32
      (topIndex word,
        { picture with
          fbColumn := if rpixel % 16 = 0 then picture.fbColumn + 1 else picture.fbColumn
          pixel32 := word <<< 1 }) := by
  unfold getColorIndex
  rw [if_neg Bool.false_ne_true]
  by_cases fetched : rpixel % 16 = 0
  · rw [if_pos fetched, if_pos fetched, if_pos fetched]
    rfl
  · rw [if_neg fetched, if_neg fetched, if_neg fetched]
    rfl

theorem getColorIndex_border (picture : Picture) (memory : Memory) (rpixel : Int) :
    picture.getColorIndex memory rpixel true =
      (picture.borderIndex, { picture with fbColumn := 0 }) := if_pos rfl

/-- What the drawing of a pixel pair leaves. -/
structure SameFetch (picture other : Picture) : Prop where
  mode512 : picture.mode512 = other.mode512
  fbColumn : picture.fbColumn = other.fbColumn
  fbRow : picture.fbRow = other.fbRow
  pixel32 : picture.pixel32 = other.pixel32
  vborder : picture.vborder = other.vborder

theorem draw_sameFetch (picture : Picture) (palette : Palette) (rasterPixel index : Nat)
    (border : Bool) : (picture.draw palette rasterPixel index border).SameFetch picture := by
  unfold draw
  dsimp only
  split
  · split
    · exact ⟨rfl, rfl, rfl, rfl, rfl⟩
    · exact ⟨rfl, rfl, rfl, rfl, rfl⟩
  · exact ⟨rfl, rfl, rfl, rfl, rfl⟩

/-- The pixels that are stored over the picture. -/
theorem draw_inside {picture : Picture} {palette : Palette} {rasterPixel index : Nat}
    (shown : picture.drawIndices rasterPixel ≠ []) {place : Nat}
    (stored : place = picture.bmpofs ∨ place = picture.bmpofs + 1) :
    (picture.draw palette rasterPixel index false).pixels place =
      drawnColour picture.mode512 palette index (place - picture.bmpofs) := by
  have window : (picture.visible && decide ((rasterPixel : Int) - picture.centerOffset ≥ 0) &&
      decide ((rasterPixel : Int) - picture.centerOffset < picture.screenWidth)) = true := by
    by_contra outside
    exact shown (if_neg outside)
  have twice : ∀ first second : BitVec 32,
      ((picture.put first).put second).pixels place =
        if place = picture.bmpofs then first else second := by
    intro first second
    unfold put
    dsimp only
    rcases stored with rfl | rfl
    · rw [if_pos rfl, Function.update_of_ne (by omega), Function.update_self]
    · rw [if_neg (by omega), Function.update_self]
  unfold draw drawnColour
  dsimp only
  rw [if_pos window]
  cases picture.mode512 with
  | false =>
    rw [if_neg (by decide), if_neg Bool.false_ne_true, twice]
    exact ite_self _
  | true =>
    rw [if_pos (by decide), if_pos rfl, twice]
    rcases stored with rfl | rfl
    · rw [if_pos rfl, if_pos (by omega)]
    · rw [if_neg (by omega), if_neg (by omega)]

end Picture

namespace Screen

variable {δ : Type} [Chips δ]

/-- A pass of a frame without commits, before the beam moves. -/
def undisturbed (screen : Screen δ) : Picture :=
  let border := screen.picture.overBorder (screen.beam.rasterPixel - 24)
  let found := screen.picture.getColorIndex screen.memory (screen.beam.rasterPixel - 24) border
  found.2.draw screen.palette screen.beam.rasterPixel found.1 border

/-- The picture after a pass of a frame without commits. -/
theorem clock_picture (screen : Screen δ) (clk : Nat) :
    (screen.clock true (-1) (-1) clk).2.picture =
      let picture := if screen.beam.endsLine then
          screen.undisturbed.advanceLine true (screen.beam.rasterLine + 1)
        else screen.undisturbed
      if screen.beam.advance.loadsScroll then
        { picture with fbRow := screen.io.scrollStart.toNat }
      else picture := by
  have never : ¬ (clk : Int) = -1 := by omega
  unfold clock commits
  dsimp only
  rw [if_neg never, if_neg never]
  unfold advance
  dsimp only
  split
  · rfl
  · split
    · rfl
    · rfl

/-- The devices of a frame without commits. -/
theorem clock_idle (screen : Screen δ) (clk : Nat) :
    (screen.clock true (-1) (-1) clk).2.SameDevices screen :=
  (clocks_quiet true (-1) (-1) 1 clk 0 screen fun i below => by omega).1

variable {start screen : Screen δ}

/-- The beam is over the picture. -/
def OverPicture (screen : Screen δ) : Prop :=
  40 ≤ screen.beam.rasterLine ∧ screen.beam.rasterLine < 296 ∧
    152 ≤ screen.beam.rasterPixel ∧ screen.beam.rasterPixel < 664

/-- A frame that is drawn from a start without commits, up to the beam. -/
structure Painting (start screen : Screen δ) : Prop where
  set : screen.picture.Set .standard
  devices : screen.SameDevices start
  mode512 : screen.picture.mode512 = start.picture.mode512
  bordered : screen.BorderedByLine
  visible : screen.picture.visible = decide (24 ≤ screen.beam.rasterLine)
  place : screen.picture.bmpofs = if 24 ≤ screen.beam.rasterLine then
      (screen.beam.rasterLine - 24) * 576 + min 576 (screen.beam.rasterPixel - 120) else 0
  column : screen.picture.fbColumn = if 40 ≤ screen.beam.rasterLine ∧
      screen.beam.rasterLine < 296 ∧ 152 < screen.beam.rasterPixel ∧
        screen.beam.rasterPixel ≤ 664 then (screen.beam.rasterPixel - 152 + 15) / 16 else 0
  row : 40 ≤ screen.beam.rasterLine → screen.beam.rasterLine < 296 →
    (screen.beam.rasterLine = 40 → 150 ≤ screen.beam.rasterPixel) →
      screen.picture.fbRow = drawnRow start.io.scrollStart screen.beam.rasterLine
  word : screen.OverPicture → (screen.beam.rasterPixel - 152) % 16 ≠ 0 →
    screen.picture.pixel32 = drawnWord start.memory.bytes start.io.scrollStart
      screen.beam.rasterLine (screen.beam.rasterPixel - 152)
  painted : ∀ x y, InPicture x y → y * 576 + x < screen.picture.bmpofs →
    screen.picture.pixels (y * 576 + x) =
      drawnColour start.picture.mode512 start.palette
        (topIndex (drawnWord start.memory.bytes start.io.scrollStart (y + 24) (x - 32))) x

omit [Chips δ] in
theorem Painting.border (painting : Painting start screen) :
    screen.picture.overBorder (screen.beam.rasterPixel - 24) = true ↔ ¬ screen.OverPicture := by
  have vborder : screen.picture.vborder = vborderAt screen.beam.rasterLine := painting.bordered
  rw [DebugAdapter.overBorder_eq, vborder]
  unfold vborderAt OverPicture
  rw [Bool.or_eq_true, decide_eq_true_eq, decide_eq_true_eq]
  omega

omit [Chips δ] in
/-- The planes that a pass over the picture shifts. -/
theorem Painting.word_now (painting : Painting start screen) (inside : screen.OverPicture) :
    (if ((screen.beam.rasterPixel : Int) - 24) % 16 = 0 then
      planeWord screen.memory.bytes screen.picture.fbColumn screen.picture.fbRow
      else screen.picture.pixel32) =
      drawnWord start.memory.bytes start.io.scrollStart screen.beam.rasterLine
        (screen.beam.rasterPixel - 152) := by
  obtain ⟨top, bottom, left, right⟩ := inside
  by_cases fetched : ((screen.beam.rasterPixel : Int) - 24) % 16 = 0
  · have column : screen.picture.fbColumn = (screen.beam.rasterPixel - 152) / 16 := by
      rw [painting.column]
      split
      · omega
      · omega
    have first : (screen.beam.rasterPixel - 152) % 16 / 2 = 0 := by omega
    rw [if_pos fetched, painting.devices.memory, column,
      painting.row top bottom (fun _ => by omega)]
    unfold drawnWord
    rw [first, BitVec.shiftLeft_zero]
  · rw [if_neg fetched]
    exact painting.word ⟨top, bottom, left, right⟩ (by omega)

omit [Chips δ] in
/-- A pass over the picture. -/
theorem Painting.undisturbed_over (painting : Painting start screen)
    (inside : screen.OverPicture) :
    screen.undisturbed.fbColumn = (screen.beam.rasterPixel + 2 - 152 + 15) / 16 ∧
      screen.undisturbed.fbRow = screen.picture.fbRow ∧
      screen.undisturbed.pixel32 = drawnWord start.memory.bytes start.io.scrollStart
        screen.beam.rasterLine (screen.beam.rasterPixel - 152) <<< 1 ∧
      screen.undisturbed.mode512 = start.picture.mode512 ∧
      screen.undisturbed.vborder = screen.picture.vborder := by
  have open_ : screen.picture.overBorder (screen.beam.rasterPixel - 24) = false := by
    rw [← Bool.not_eq_true, painting.border, not_not]
    exact inside
  unfold undisturbed
  dsimp only
  rw [open_, Picture.getColorIndex_inside, painting.word_now inside]
  dsimp only
  have same := Picture.draw_sameFetch
    { screen.picture with
      fbColumn := if ((screen.beam.rasterPixel : Int) - 24) % 16 = 0 then
        screen.picture.fbColumn + 1 else screen.picture.fbColumn
      pixel32 := drawnWord start.memory.bytes start.io.scrollStart screen.beam.rasterLine
        (screen.beam.rasterPixel - 152) <<< 1 }
    screen.palette screen.beam.rasterPixel
    (topIndex (drawnWord start.memory.bytes start.io.scrollStart screen.beam.rasterLine
      (screen.beam.rasterPixel - 152))) false
  refine ⟨same.fbColumn.trans ?_, same.fbRow, same.pixel32, same.mode512.trans painting.mode512,
    same.vborder⟩
  obtain ⟨top, bottom, left, right⟩ := inside
  have even := screen.beam.pixel_even
  have column := painting.column
  dsimp only
  by_cases later : 152 < screen.beam.rasterPixel
  · rw [if_pos ⟨top, bottom, later, by omega⟩] at column
    rw [column]
    split
    · omega
    · omega
  · rw [if_neg (by omega)] at column
    rw [column]
    split
    · omega
    · omega

omit [Chips δ] in
/-- A pass over the border. -/
theorem Painting.undisturbed_border (painting : Painting start screen)
    (aside : ¬ screen.OverPicture) :
    screen.undisturbed.fbColumn = 0 ∧
      screen.undisturbed.fbRow = screen.picture.fbRow ∧
      screen.undisturbed.mode512 = start.picture.mode512 ∧
      screen.undisturbed.vborder = screen.picture.vborder := by
  have closed : screen.picture.overBorder (screen.beam.rasterPixel - 24) = true :=
    painting.border.mpr aside
  unfold undisturbed
  dsimp only
  rw [closed, Picture.getColorIndex_border]
  dsimp only
  have same := Picture.draw_sameFetch { screen.picture with fbColumn := 0 } screen.palette
    screen.beam.rasterPixel screen.picture.borderIndex true
  exact ⟨same.fbColumn, same.fbRow, same.mode512.trans painting.mode512, same.vborder⟩

/-- The planes of the next pass in a group. -/
theorem drawnWord_next (bytes : Nat → Byte) (scroll : Byte) (line pixel : Nat)
    (even : pixel % 2 = 0) (between : (pixel + 2) % 16 ≠ 0) :
    drawnWord bytes scroll line pixel <<< 1 = drawnWord bytes scroll line (pixel + 2) := by
  unfold drawnWord
  have column : (pixel + 2) / 16 = pixel / 16 := by omega
  have shift : (pixel + 2) % 16 / 2 = pixel % 16 / 2 + 1 := by omega
  rw [column, shift, BitVec.shiftLeft_add]

/-- The two columns of a pixel pair show one bit. -/
theorem drawnWord_pair (bytes : Nat → Byte) (scroll : Byte) (line pixel : Nat)
    (even : pixel % 2 = 0) :
    drawnWord bytes scroll line (pixel + 1) = drawnWord bytes scroll line pixel := by
  unfold drawnWord
  have column : (pixel + 1) / 16 = pixel / 16 := by omega
  have shift : (pixel + 1) % 16 / 2 = pixel % 16 / 2 := by omega
  rw [column, shift]

theorem drawnColour_congr (mode512 : Bool) (palette : Palette) (index : Nat) {x other : Nat}
    (same : x % 2 = other % 2) :
    drawnColour mode512 palette index x = drawnColour mode512 palette index other := by
  unfold drawnColour
  rw [same]

/-- The pixels after a pass. -/
theorem clock_pixels (screen : Screen δ) (clk : Nat) :
    (screen.clock true (-1) (-1) clk).2.picture.pixels = screen.undisturbed.pixels := by
  rw [clock_picture]
  dsimp only
  split
  · split
    · rfl
    · rfl
  · split
    · rfl
    · rfl

/-- A pass keeps what is painted. -/
theorem Painting.paints (painting : Painting start screen) (clk : Nat) {x y : Nat}
    (inPicture : InPicture x y)
    (before : y * 576 + x < (screen.clock true (-1) (-1) clk).2.picture.bmpofs) :
    (screen.clock true (-1) (-1) clk).2.picture.pixels (y * 576 + x) =
      drawnColour start.picture.mode512 start.palette
        (topIndex (drawnWord start.memory.bytes start.io.scrollStart (y + 24) (x - 32))) x := by
  obtain ⟨events, -, canvas, others⟩ := clock_canvas painting.set true (-1) (-1) clk
  have place := painting.place
  have even := screen.beam.pixel_even
  have moved : (screen.clock true (-1) (-1) clk).2.picture.bmpofs = screen.picture.bmpofs +
      if screen.picture.visible && ScreenOptions.standard.inWindow screen.beam.rasterPixel then 2
        else 0 := congrArg Canvas.bmpofs canvas
  by_cases old : y * 576 + x < screen.picture.bmpofs
  · rw [others _ ?_]
    · exact painting.painted x y inPicture old
    · intro listed
      rw [events] at listed
      unfold Canvas.stores Canvas.leaves at listed
      have offset : screen.picture.canvas.bmpofs = screen.picture.bmpofs := rfl
      rw [offset] at listed
      split at listed
      · split at listed
        · simp only [List.mem_append, List.mem_cons, List.not_mem_nil, PixelEvent.put.injEq,
            reduceCtorEq, or_false] at listed
          omega
        · simp only [List.mem_append, List.mem_cons, List.not_mem_nil, PixelEvent.put.injEq,
            or_false] at listed
          omega
      · split at listed
        · simp only [List.mem_append, List.mem_cons, List.not_mem_nil, reduceCtorEq, or_false]
            at listed
        · simp only [List.mem_append, List.not_mem_nil, or_false] at listed
  · rw [moved] at before
    have shown : (screen.picture.visible &&
        ScreenOptions.standard.inWindow screen.beam.rasterPixel) = true := by
      by_contra hidden
      rw [if_neg hidden] at before
      omega
    rw [if_pos shown] at before
    obtain ⟨visible, window⟩ := (Bool.and_eq_true _ _).mp shown
    have line : 24 ≤ screen.beam.rasterLine := by
      rw [painting.visible] at visible
      exact of_decide_eq_true visible
    have columns : 120 ≤ screen.beam.rasterPixel ∧ screen.beam.rasterPixel < 696 := by
      unfold ScreenOptions.inWindow at window
      rw [Bool.and_eq_true, decide_eq_true_eq, decide_eq_true_eq] at window
      exact window
    rw [if_pos line] at place
    obtain ⟨left, right, top, bottom⟩ := inPicture
    have row : y + 24 = screen.beam.rasterLine := by omega
    have inside : screen.OverPicture := by
      unfold OverPicture
      omega
    have drawn : screen.picture.drawIndices screen.beam.rasterPixel ≠ [] :=
      (DebugAdapter.drawIndices_ne painting.set _).mpr ⟨visible, window⟩
    have closed : screen.picture.overBorder (screen.beam.rasterPixel - 24) = false := by
      rw [← Bool.not_eq_true, painting.border, not_not]
      exact inside
    have pair : y * 576 + x = screen.picture.bmpofs ∨
        y * 576 + x = screen.picture.bmpofs + 1 := by omega
    rw [clock_pixels]
    unfold undisturbed
    dsimp only
    rw [closed, Picture.getColorIndex_inside, painting.word_now inside]
    dsimp only
    refine (Picture.draw_inside (by exact drawn) (by exact pair)).trans ?_
    dsimp only
    rw [painting.mode512, painting.devices.palette]
    rw [drawnColour_congr _ _ _ (show (y * 576 + x - screen.picture.bmpofs) % 2 = x % 2 by omega)]
    have word : drawnWord start.memory.bytes start.io.scrollStart (y + 24) (x - 32) =
        drawnWord start.memory.bytes start.io.scrollStart screen.beam.rasterLine
          (screen.beam.rasterPixel - 152) := by
      rw [row]
      rcases pair with first | second
      · rw [show x - 32 = screen.beam.rasterPixel - 152 by omega]
      · rw [show x - 32 = screen.beam.rasterPixel - 152 + 1 by omega,
          drawnWord_pair _ _ _ _ (by omega)]
    rw [word]

/-- What a pass leaves of the picture but its pixels. -/
theorem clock_fetch (screen : Screen δ) (clk : Nat) :
    let after := (screen.clock true (-1) (-1) clk).2.picture
    after.fbColumn = screen.undisturbed.fbColumn ∧
      after.pixel32 = screen.undisturbed.pixel32 ∧ after.mode512 = screen.undisturbed.mode512 ∧
      after.fbRow = if screen.beam.advance.loadsScroll then (screen.io.scrollStart.toNat : Int)
        else if screen.beam.endsLine then
          (if !screen.undisturbed.vborder && decide (screen.undisturbed.fbRow - 1 < 0) then 0xff
            else screen.undisturbed.fbRow - 1)
        else screen.undisturbed.fbRow := by
  dsimp only
  rw [clock_picture]
  dsimp only
  by_cases loads : screen.beam.advance.loadsScroll = true
  · rw [if_pos loads, if_pos loads]
    by_cases ends : screen.beam.endsLine = true
    · rw [if_pos ends]
      exact ⟨rfl, rfl, rfl, rfl⟩
    · rw [if_neg ends]
      exact ⟨rfl, rfl, rfl, rfl⟩
  · rw [if_neg loads, if_neg loads]
    by_cases ends : screen.beam.endsLine = true
    · rw [if_pos ends, if_pos ends]
      exact ⟨rfl, rfl, rfl, rfl⟩
    · rw [if_neg ends, if_neg ends]
      exact ⟨rfl, rfl, rfl, rfl⟩

omit [Chips δ] in
/-- Where the beam goes before the end of the frame. -/
theorem next_place (beam : Beam) (clk : Nat) (more : beam.position + 2 < Beam.framePixels) :
    (beam.endsLine = true ∧ beam.rasterPixel = 766 ∧ beam.rasterLine + 1 < 312 ∧
        (beam.clock clk).rasterLine = beam.rasterLine + 1 ∧ (beam.clock clk).rasterPixel = 0) ∨
      (beam.endsLine = false ∧ beam.rasterPixel + 2 < 768 ∧
        (beam.clock clk).rasterLine = beam.rasterLine ∧
        (beam.clock clk).rasterPixel = beam.rasterPixel + 2) := by
  have whole : Beam.framePixels = 239616 := rfl
  have position : beam.position = beam.rasterLine * 768 + beam.rasterPixel := rfl
  have even := beam.pixel_even
  have pixel := beam.pixel_lt
  cases ends : beam.endsLine with
  | true =>
    have last : beam.rasterPixel + 2 = 768 := beq_iff_eq.mp ends
    obtain ⟨start, line⟩ := beam.clock_end clk ends
    rw [if_neg (by omega)] at line
    exact .inl ⟨rfl, by omega, by omega, line.1, start⟩
  | false =>
    have between : beam.rasterPixel + 2 ≠ 768 := by
      intro last
      have ended : beam.endsLine = true := beq_iff_eq.mpr last
      rw [ends] at ended
      cases ended
    obtain ⟨line, next, -⟩ := beam.clock_inside clk ends
    exact .inr ⟨rfl, by omega, line, next⟩

/-- The canvas of a frame that goes on. -/
theorem Painting.canvas (painting : Painting start screen) (clk : Nat)
    (more : screen.beam.position + 2 < Beam.framePixels) :
    let after := (screen.clock true (-1) (-1) clk).2
    after.picture.visible = decide (24 ≤ after.beam.rasterLine) ∧
      after.picture.bmpofs = if 24 ≤ after.beam.rasterLine then
        (after.beam.rasterLine - 24) * 576 + min 576 (after.beam.rasterPixel - 120) else 0 := by
  obtain ⟨-, -, canvas, -⟩ := clock_canvas painting.set true (-1) (-1) clk
  have even := screen.beam.pixel_even
  have offset : (screen.clock true (-1) (-1) clk).2.picture.bmpofs = screen.picture.bmpofs +
      if screen.picture.visible && ScreenOptions.standard.inWindow screen.beam.rasterPixel then 2
        else 0 := congrArg Canvas.bmpofs canvas
  have seen : (screen.clock true (-1) (-1) clk).2.picture.visible =
      if screen.beam.endsLine then
        if screen.beam.rasterLine + 1 = 312 then false
        else screen.picture.visible ||
          (true && screen.beam.rasterLine + 1 == ScreenOptions.standard.firstVisibleLine)
      else screen.picture.visible := congrArg Canvas.visible canvas
  have place := painting.place
  have visible := painting.visible
  have window : ScreenOptions.standard.inWindow screen.beam.rasterPixel =
      (decide (120 ≤ screen.beam.rasterPixel) && decide (screen.beam.rasterPixel < 696)) := rfl
  have first : ScreenOptions.standard.firstVisibleLine = 24 := rfl
  dsimp only
  rw [screen.clock_beam true (-1) (-1) clk, offset, seen, visible, place, window, first]
  rcases next_place screen.beam clk more with
    ⟨ends, pixel, below, line, start⟩ | ⟨going, pixel, line, next⟩
  · rw [if_pos ends, if_neg (by omega), line, start, pixel]
    constructor
    · rw [Bool.true_and, Bool.eq_iff_iff, Bool.or_eq_true, decide_eq_true_eq, beq_iff_eq,
        decide_eq_true_eq]
      omega
    · by_cases shown : 24 ≤ screen.beam.rasterLine
      · rw [decide_eq_true shown, if_pos (show 24 ≤ screen.beam.rasterLine + 1 by omega),
          if_pos shown, if_neg (by decide)]
        omega
      · rw [decide_eq_false shown, Bool.false_and, if_neg Bool.false_ne_true, if_neg shown]
        split
        · omega
        · rfl
  · rw [if_neg (by rw [going]; exact Bool.false_ne_true), line, next]
    refine ⟨rfl, ?_⟩
    by_cases shown : 24 ≤ screen.beam.rasterLine
    · rw [if_pos shown, if_pos shown, decide_eq_true shown, Bool.true_and]
      by_cases stored : 120 ≤ screen.beam.rasterPixel ∧ screen.beam.rasterPixel < 696
      · rw [decide_eq_true stored.1, decide_eq_true stored.2, if_pos (by decide)]
        omega
      · rw [if_neg]
        · omega
        · rw [Bool.and_eq_true, decide_eq_true_eq, decide_eq_true_eq]
          exact stored
    · rw [if_neg shown, if_neg shown, decide_eq_false shown, Bool.false_and,
        if_neg Bool.false_ne_true]

/-- The row of a frame that goes on. -/
theorem Painting.nextRow (painting : Painting start screen) (clk : Nat)
    (more : screen.beam.position + 2 < Beam.framePixels) :
    let after := (screen.clock true (-1) (-1) clk).2
    40 ≤ after.beam.rasterLine → after.beam.rasterLine < 296 →
      (after.beam.rasterLine = 40 → 150 ≤ after.beam.rasterPixel) →
        after.picture.fbRow = drawnRow start.io.scrollStart after.beam.rasterLine := by
  obtain ⟨-, -, -, row⟩ := clock_fetch screen clk
  have small : start.io.scrollStart.toNat < 256 := start.io.scrollStart.isLt
  have even := screen.beam.pixel_even
  have kept : screen.undisturbed.fbRow = screen.picture.fbRow ∧
      screen.undisturbed.vborder = screen.picture.vborder := by
    by_cases inside : screen.OverPicture
    · obtain ⟨-, row, -, -, vborder⟩ := painting.undisturbed_over inside
      exact ⟨row, vborder⟩
    · obtain ⟨-, row, -, vborder⟩ := painting.undisturbed_border inside
      exact ⟨row, vborder⟩
  have advanced : screen.beam.advance.rasterLine = (screen.beam.clock clk).rasterLine ∧
      screen.beam.advance.rasterPixel = (screen.beam.clock clk).rasterPixel := by
    unfold Beam.clock
    dsimp only
    split
    · exact ⟨rfl, rfl⟩
    · split
      · exact ⟨rfl, rfl⟩
      · exact ⟨rfl, rfl⟩
  have loads : screen.beam.advance.loadsScroll = true ↔
      (screen.beam.clock clk).rasterLine = 40 ∧ (screen.beam.clock clk).rasterPixel = 150 := by
    unfold Beam.loadsScroll
    rw [advanced.1, advanced.2, Bool.and_eq_true, beq_iff_eq, beq_iff_eq]
  dsimp only at row ⊢
  rw [row, kept.1, kept.2, screen.clock_beam true (-1) (-1) clk, painting.devices.io]
  intro top bottom reached
  have border : screen.picture.vborder = vborderAt screen.beam.rasterLine := painting.bordered
  rcases next_place screen.beam clk more with
    ⟨ends, pixel, below, line, first⟩ | ⟨going, pixel, line, next⟩
  · rw [line] at top bottom reached
    rw [first] at reached
    have shown : 40 ≤ screen.beam.rasterLine := by omega
    have before := painting.row shown (by omega) (fun _ => by omega)
    have open_ : screen.picture.vborder = false := by
      rw [border]
      unfold vborderAt
      rw [decide_eq_false (by omega), decide_eq_false (by omega)]
      rfl
    rw [if_neg (by rw [loads]; omega), if_pos ends, open_, Bool.not_false, Bool.true_and, before,
      line]
    unfold drawnRow
    by_cases wraps : ((start.io.scrollStart.toNat : Int) - (screen.beam.rasterLine - 40)) % 256 -
        1 < 0
    · rw [if_pos (decide_eq_true wraps)]
      omega
    · rw [if_neg (by rw [decide_eq_true_eq]; exact wraps)]
      omega
  · rw [line] at top bottom reached
    rw [next] at reached
    by_cases loaded : screen.beam.advance.loadsScroll = true
    · have place := loads.mp loaded
      rw [if_pos loaded, place.1]
      unfold drawnRow
      omega
    · have elsewhere := fun place => loaded (loads.mpr place)
      rw [line, next] at elsewhere
      rw [if_neg loaded, if_neg (by rw [going]; exact Bool.false_ne_true), line]
      exact painting.row top bottom fun start => by
        have near := reached start
        have far : screen.beam.rasterPixel + 2 ≠ 150 := fun place => elsewhere ⟨start, place⟩
        omega

/-- A pass of a frame that goes on keeps what the frame is up to the beam. -/
theorem Painting.clock (painting : Painting start screen) (clk : Nat)
    (more : screen.beam.position + 2 < Beam.framePixels) :
    Painting start (screen.clock true (-1) (-1) clk).2 := by
  obtain ⟨-, set, -, -⟩ := clock_canvas painting.set true (-1) (-1) clk
  obtain ⟨visible, place⟩ := painting.canvas clk more
  obtain ⟨column, word, mode, row⟩ := clock_fetch screen clk
  have beam := screen.clock_beam true (-1) (-1) clk
  have even := screen.beam.pixel_even
  have line := next_place screen.beam clk more
  rw [← beam] at line
  refine ⟨set, (clock_idle screen clk).trans painting.devices, ?_,
    painting.bordered.clock true (-1) (-1) clk, visible, place, ?_, ?_, ?_,
    fun x y inPicture before => painting.paints clk inPicture before⟩
  · rw [mode]
    by_cases inside : screen.OverPicture
    · exact (painting.undisturbed_over inside).2.2.2.1
    · exact (painting.undisturbed_border inside).2.2.1
  · rw [column]
    by_cases inside : screen.OverPicture
    · rw [(painting.undisturbed_over inside).1]
      obtain ⟨top, bottom, left, right⟩ := inside
      rcases line with ⟨ends, pixel, below, line, first⟩ | ⟨going, pixel, line, next⟩
      · omega
      · rw [line, next, if_pos (by omega)]
    · rw [(painting.undisturbed_border inside).1]
      unfold OverPicture at inside
      rcases line with ⟨ends, pixel, below, line, first⟩ | ⟨going, pixel, line, next⟩
      · rw [first, if_neg (by omega)]
      · rw [line, next, if_neg (by omega)]
  · exact painting.nextRow clk more
  · intro inside between
    rw [word]
    unfold OverPicture at inside
    have over' : screen.OverPicture := by
      unfold OverPicture
      rcases line with ⟨ends, pixel, below, line, first⟩ | ⟨going, pixel, line, next⟩
      · omega
      · omega
    rw [(painting.undisturbed_over over').2.2.1]
    obtain ⟨top, bottom, left, right⟩ := over'
    rcases line with ⟨ends, pixel, below, line, first⟩ | ⟨going, pixel, line, next⟩
    · omega
    · rw [line, next]
      rw [next] at between
      rw [drawnWord_next _ _ _ _ (by omega) (by omega),
        show screen.beam.rasterPixel + 2 - 152 = screen.beam.rasterPixel - 152 + 2 by omega]

/-- Passes of a frame that goes on. -/
theorem Painting.clocks (passes : Nat) :
    ∀ (clk index : Nat) {screen : Screen δ}, Painting start screen →
      screen.beam.position + 2 * passes < Beam.framePixels →
      Painting start (Screen.clocks true (-1) (-1) passes clk index screen).2.1 ∧
        (Screen.clocks true (-1) (-1) passes clk index screen).2.1.beam.position =
          screen.beam.position + 2 * passes := by
  induction passes with
  | zero =>
    intro clk index screen painting more
    refine ⟨painting, ?_⟩
    rw [Nat.mul_zero, Nat.add_zero]
    rfl
  | succ passes inductionHypothesis =>
    intro clk index screen painting more
    have first := painting.clock clk (by omega)
    have moved : (screen.clock true (-1) (-1) clk).2.beam.position =
        screen.beam.position + 2 := by
      have place := next_place screen.beam clk (by omega)
      rw [screen.clock_beam true (-1) (-1) clk]
      unfold Beam.position
      omega
    obtain ⟨rest, last⟩ := inductionHypothesis (clk + 2)
      (screen.clock true (-1) (-1) clk).1 first (by omega)
    refine ⟨rest, last.trans ?_⟩
    omega

/-- What `PixelFiller::reset` leaves at the start of a frame. -/
structure FrameStart (start : Screen δ) : Prop where
  set : start.picture.Set .standard
  line : start.beam.rasterLine = 0
  vborder : start.picture.vborder = true
  visible : start.picture.visible = false
  bmpofs : start.picture.bmpofs = 0
  fbColumn : start.picture.fbColumn = 0

omit [Chips δ] in
/-- `PixelFiller::reset` starts a frame. -/
theorem frameStart_reset {screen : Screen δ} (set : screen.picture.Set .standard) :
    FrameStart { screen with beam := screen.beam.reset, picture := screen.picture.reset } :=
  ⟨⟨set.firstVisibleLine, set.centerOffset, set.screenWidth⟩, rfl, rfl, rfl, rfl, rfl⟩

/-- A whole frame without commits. -/
def drawnFrame (start : Screen δ) : Screen δ :=
  (Screen.clocks true (-1) (-1) ((Beam.framePixels - start.beam.position) / 2) 0 0 start).2.1

omit [Chips δ] in
theorem FrameStart.painting (begins : FrameStart start) : Painting start start where
  set := begins.set
  devices := ⟨rfl, rfl, rfl⟩
  mode512 := rfl
  bordered := by
    show start.picture.vborder = vborderAt start.beam.rasterLine
    rw [begins.vborder, begins.line]
    decide
  visible := by
    rw [begins.visible, begins.line]
    decide
  place := by
    rw [begins.bmpofs, begins.line]
    rfl
  column := by
    rw [begins.fbColumn, if_neg (by rw [begins.line]; omega)]
  row := fun top => by
    rw [begins.line] at top
    omega
  word := fun inside => by
    unfold OverPicture at inside
    rw [begins.line] at inside
    omega
  painted := fun x y inPicture before => by
    rw [begins.bmpofs] at before
    omega

/-- A whole frame shows the bits of the planes, a row less on each line. -/
theorem drawnFrame_pixels (begins : FrameStart start) {x y : Nat} (inPicture : InPicture x y) :
    (drawnFrame start).picture.pixels (y * 576 + x) =
      drawnColour start.picture.mode512 start.palette
        (topIndex (drawnWord start.memory.bytes start.io.scrollStart (y + 24) (x - 32))) x := by
  have whole : Beam.framePixels = 239616 := rfl
  have position : start.beam.position = start.beam.rasterLine * 768 + start.beam.rasterPixel := rfl
  have line := begins.line
  have pixel := start.beam.pixel_lt
  have even := start.beam.pixel_even
  obtain ⟨passes, count⟩ : ∃ passes,
      (Beam.framePixels - start.beam.position) / 2 = passes + 1 :=
    ⟨(Beam.framePixels - start.beam.position) / 2 - 1, by omega⟩
  obtain ⟨painting, last⟩ := begins.painting.clocks passes 0 0 (by omega)
  have ends := (clocks_add true (-1) (-1) passes 1 0 0 start).2.1
  have frame : drawnFrame start = ((Screen.clocks true (-1) (-1) passes 0 0 start).2.1.clock true
      (-1) (-1) (0 + 2 * passes)).2 := by
    unfold drawnFrame
    rw [count]
    exact ends
  rw [frame]
  generalize (Screen.clocks true (-1) (-1) passes 0 0 start).2.1 = screen at painting last
  have final : screen.beam.rasterLine = 311 ∧ screen.beam.rasterPixel = 766 := by
    have place : screen.beam.position =
        screen.beam.rasterLine * 768 + screen.beam.rasterPixel := rfl
    have within := screen.beam.pixel_lt
    have shown := screen.beam.line_lt
    omega
  obtain ⟨events, -, -, others⟩ := clock_canvas painting.set true (-1) (-1) (0 + 2 * passes)
  have stored : y * 576 + x < screen.picture.bmpofs := by
    obtain ⟨left, right, top, bottom⟩ := inPicture
    rw [painting.place, final.1, final.2, if_pos (by decide)]
    omega
  rw [others _ ?_]
  · exact painting.painted x y inPicture stored
  · intro listed
    rw [events] at listed
    unfold Canvas.stores Canvas.leaves at listed
    have window : ScreenOptions.standard.inWindow screen.beam.rasterPixel = false := by
      rw [final.2]
      decide
    rw [window, Bool.and_false, if_neg Bool.false_ne_true, List.nil_append] at listed
    split at listed
    · simp only [List.mem_cons, List.not_mem_nil, reduceCtorEq, or_false] at listed
    · exact absurd listed List.not_mem_nil

end Screen

/-- The indices that the wide mode shows. -/
def wideIndices : List Nat := [1, 2, 3, 4, 8, 12]

/-- The mapping of the debugger goes with a frame drawn from a start: every pixel of the picture is
mapped, and a mapped pixel is determined by the bytes at its address in the four planes. -/
structure DrawnFrom {δ : Type} [Chips δ] (video : VideoInfo) (start : Screen δ) : Prop where
  mapped : ∀ x y, InPicture x y → (video.screenToVram x y).isSome = true
  determined : ∀ (x y : Nat) (addr : Word), video.screenToVram x y = some addr →
    ∀ bytes other : Nat → Byte,
      (∀ plane < 4, bytes (Memory.tobank (0x8000 + 0x2000 * plane + addr.toNat % 0x2000)) =
        other (Memory.tobank (0x8000 + 0x2000 * plane + addr.toNat % 0x2000))) →
      (Screen.drawnFrame { start with memory := { start.memory with bytes } }).picture.pixels
          (y * 576 + x) =
        (Screen.drawnFrame { start with
          memory := { start.memory with bytes := other } }).picture.pixels (y * 576 + x)

/-- The colours of the wide mode are all one. -/
theorem drawnColour_uniform {palette : Palette}
    (uniform : ∀ index ∈ wideIndices, palette.colours index = palette.colours 0)
    (index x : Nat) : drawnColour true palette index x = palette.colours 0 := by
  have low : ∀ index : Fin 16, index.val &&& 3 = 0 ∨ index.val &&& 3 ∈ wideIndices := by decide
  have high : ∀ index : Fin 16, index.val &&& 12 = 0 ∨ index.val &&& 12 ∈ wideIndices := by decide
  have reduced : index % 16 &&& 3 = index &&& 3 ∧ index % 16 &&& 12 = index &&& 12 := by
    constructor
    · rw [show 16 = 2 ^ 4 from rfl, ← Nat.and_two_pow_sub_one_eq_mod, Nat.and_assoc]
      rfl
    · rw [show 16 = 2 ^ 4 from rfl, ← Nat.and_two_pow_sub_one_eq_mod, Nat.and_assoc]
      rfl
  unfold drawnColour
  rw [if_pos rfl]
  split
  · have place := low ⟨index % 16, Nat.mod_lt _ (by decide)⟩
    dsimp only at place
    rw [reduced.1] at place
    rcases place with zero | listed
    · rw [zero]
    · exact uniform _ listed
  · have place := high ⟨index % 16, Nat.mod_lt _ (by decide)⟩
    dsimp only at place
    rw [reduced.2] at place
    rcases place with zero | listed
    · rw [zero]
    · exact uniform _ listed

/-- A memory that shows an index in the first column of a row, and zero elsewhere. -/
def lit (index row place : Nat) : Byte :=
  if place / 4 = 0x2000 + row ∧ index.testBit (3 - place % 4) = true then 0x80 else 0

/-- The planes of that row. -/
theorem topIndex_lit {index row : Nat} (small : index < 16) (byte : row < 256) :
    topIndex (planeWord (lit index row) 0 row) = index := by
  have cells : ∀ plane < 4, lit index row (4 * (0x2000 + row) + plane) =
      if index.testBit (3 - plane) then 0x80 else 0 := by
    intro plane below
    unfold lit
    rw [show (4 * (0x2000 + row) + plane) / 4 = 0x2000 + row by omega,
      show (4 * (0x2000 + row) + plane) % 4 = plane by omega]
    simp only [true_and]
  have address : ((0 &&& 0xff) <<< 8 ||| ((row : Int).emod 256).toNat) = row := by
    have same : ((row : Int).emod 256).toNat = row := by
      show ((row : Int) % 256).toNat = row
      omega
    rw [same]
    exact Nat.zero_or row
  unfold planeWord
  dsimp only
  rw [address, cells 0 (by decide), cells 1 (by decide), cells 2 (by decide),
    cells 3 (by decide)]
  have all : ∀ index : Fin 16, topIndex
      ((if index.val.testBit (3 - 3) then (0x80 : Byte) else 0) ++
        (if index.val.testBit (3 - 2) then (0x80 : Byte) else 0) ++
        (if index.val.testBit (3 - 1) then (0x80 : Byte) else 0) ++
        (if index.val.testBit (3 - 0) then (0x80 : Byte) else 0)) = index.val := by decide
  exact all ⟨index, small⟩

/-- The planes of other rows are dark there. -/
theorem lit_apart {index row other plane : Nat} (below : other < 0x100) (planes : plane < 4)
    (apart : other ≠ row) :
    lit index row (Memory.tobank (0x8000 + 0x2000 * plane + other)) = 0 := by
  have places : ∀ other < 256, ∀ plane < 4,
      Memory.tobank (0x8000 + 0x2000 * plane + other) / 4 = 0x2000 + other := by decide +kernel
  unfold lit
  rw [places other below plane planes, if_neg]
  exact fun both => apart (by omega)

variable {δ : Type} [Chips δ] {start : Screen δ}

omit [Chips δ] in
/-- The memory has no part in the start of a frame. -/
theorem Screen.FrameStart.withBytes (begins : start.FrameStart) (bytes : Nat → Byte) :
    Screen.FrameStart { start with memory := { start.memory with bytes } } :=
  ⟨begins.set, begins.line, begins.vborder, begins.visible, begins.bmpofs, begins.fbColumn⟩

/-- The first pixel pair of the second row of a picture in the wide mode. -/
theorem drawnFrame_lit (begins : start.FrameStart) (mode : start.picture.mode512 = true)
    {index x : Nat} (small : index < 16) (pair : x = 32 ∨ x = 33) :
    (Screen.drawnFrame { start with
      memory := { start.memory with
        bytes := lit index ((start.io.scrollStart.toNat + 255) % 256) } }).picture.pixels
          (17 * 576 + x) = drawnColour true start.palette index x := by
  have inPicture : InPicture x 17 := by
    unfold InPicture
    omega
  rw [Screen.drawnFrame_pixels (begins.withBytes _) inPicture]
  dsimp only
  have row : drawnRow start.io.scrollStart (17 + 24) =
      (((start.io.scrollStart.toNat + 255) % 256 : Nat) : Int) := by
    unfold drawnRow
    omega
  have word : drawnWord (lit index ((start.io.scrollStart.toNat + 255) % 256))
      start.io.scrollStart (17 + 24) (x - 32) =
        planeWord (lit index ((start.io.scrollStart.toNat + 255) % 256)) 0
          (((start.io.scrollStart.toNat + 255) % 256 : Nat) : Int) := by
    unfold drawnWord
    rw [row, show (x - 32) / 16 = 0 by omega, show (x - 32) % 16 / 2 = 0 by omega,
      BitVec.shiftLeft_zero]
  rw [word, topIndex_lit small (Nat.mod_lt _ (by decide)), mode]

/-- The wide mode maps the pixels of the picture and no others. -/
theorem shows_wide_iff (scroll : Byte) (x y : Nat) :
    (VideoInfo.wide scroll).Shows x y ↔ InPicture x y := by
  unfold VideoInfo.Shows InPicture VideoInfo.wide
  dsimp only
  omega

/-- A mapped pixel of the wide mode is not determined by its address where two colours that can
be told apart are in the palette. -/
theorem uniform_of_determined (begins : start.FrameStart)
    (mode : start.picture.mode512 = true)
    (drawn : DrawnFrom (VideoInfo.wide start.io.scrollStart) start) {index x : Nat}
    (small : index < 16) (pair : x = 32 ∨ x = 33) :
    drawnColour true start.palette index x = drawnColour true start.palette 0 x := by
  have shown : (VideoInfo.wide start.io.scrollStart).Shows x (17 : Nat) := by
    rw [shows_wide_iff]
    unfold InPicture
    omega
  obtain ⟨addr, mapped, value⟩ := VideoInfo.screenToVram_toNat shown
  have scroll : start.io.scrollStart.toNat < 256 := start.io.scrollStart.isLt
  have place : addr.toNat % 0x2000 = (start.io.scrollStart.toNat + 1) % 256 := by
    unfold VideoInfo.wide at value
    dsimp only at value
    have base : ((0xc000 : Word).toNat : Int) = 49152 := rfl
    rw [base] at value
    omega
  have same := drawn.determined x 17 addr mapped
    (lit index ((start.io.scrollStart.toNat + 255) % 256))
    (lit 0 ((start.io.scrollStart.toNat + 255) % 256)) (by
      intro plane below
      rw [place, lit_apart (by omega) below (by omega), lit_apart (by omega) below (by omega)])
  rw [drawnFrame_lit begins mode small pair, drawnFrame_lit begins mode (by decide) pair] at same
  exact same

/-- The mapping goes with what is drawn exactly in the wide mode, when its seven indices have one
colour: its rows go the other way, and its columns are not those that are fetched. In the narrow
mode it leaves out half of the picture. -/
theorem drawnFrom_iff (inst : Instrumentation) (begins : start.FrameStart)
    (mode : start.picture.mode512 = inst.videoModeSnapshot.mode512)
    (scroll : start.io.scrollStart = inst.videoModeSnapshot.scrollValue) :
    DrawnFrom inst.videoModeSnapshot.videoInfo start ↔
      inst.videoModeSnapshot.mode512 = true ∧
        ∀ index ∈ wideIndices, start.palette.colours index = start.palette.colours 0 := by
  have info := videoInfo_videoModeSnapshot inst
  cases wide : inst.videoModeSnapshot.mode512 with
  | false =>
    rw [wide, if_neg Bool.false_ne_true] at info
    rw [info]
    refine iff_of_false (fun drawn => ?_) (fun both => Bool.false_ne_true both.1)
    have first := drawn.mapped 32 16 (by unfold InPicture; omega)
    have none : (VideoInfo.narrow inst.ioPA).screenToVram (32 : Nat) (16 : Nat) = none :=
      if_neg fun shown => by
        have left : (160 : Int) ≤ (32 : Nat) := shown.1
        omega
    rw [none] at first
    cases first
  | true =>
    rw [wide, if_pos rfl] at info
    rw [wide] at mode
    have register : inst.ioPA = start.io.scrollStart := scroll.symm
    rw [info, register]
    constructor
    · intro drawn
      refine ⟨rfl, fun index listed => ?_⟩
      have even : ∀ index < 16,
          drawnColour true start.palette index 32 = drawnColour true start.palette 0 32 :=
        fun index small => uniform_of_determined begins mode drawn small (.inl rfl)
      have odd : ∀ index < 16,
          drawnColour true start.palette index 33 = drawnColour true start.palette 0 33 :=
        fun index small => uniform_of_determined begins mode drawn small (.inr rfl)
      unfold wideIndices at listed
      simp only [List.mem_cons, List.not_mem_nil, or_false] at listed
      rcases listed with rfl | rfl | rfl | rfl | rfl | rfl
      · exact even 1 (by decide)
      · exact even 2 (by decide)
      · exact even 3 (by decide)
      · exact odd 4 (by decide)
      · exact odd 8 (by decide)
      · exact odd 12 (by decide)
    · rintro ⟨-, uniform⟩
      refine ⟨fun x y inPicture => ?_, fun x y addr mapped bytes other agree => ?_⟩
      · obtain ⟨addr, mapped, -⟩ := VideoInfo.screenToVram_toNat
          ((shows_wide_iff start.io.scrollStart x y).mpr inPicture)
        rw [mapped]
        rfl
      · have inPicture : InPicture x y := by
          rw [← shows_wide_iff start.io.scrollStart]
          by_contra hidden
          have none : (VideoInfo.wide start.io.scrollStart).screenToVram x y = none :=
            if_neg hidden
          rw [none] at mapped
          cases mapped
        rw [Screen.drawnFrame_pixels (begins.withBytes bytes) inPicture,
          Screen.drawnFrame_pixels (begins.withBytes other) inPicture]
        dsimp only
        rw [mode, drawnColour_uniform uniform, drawnColour_uniform uniform]

/-- A machine switched on, in the wide mode. -/
def wideStart : Screen Unit :=
  let screen := ((Board.powerOn () []).initFiller .standard).screen
  { screen with
    picture := { screen.picture with mode512 := true }
    palette := { colours := fun _ => 0, raw := fun _ => 0 } }

/-- A black palette. -/
theorem drawnFrom_iff_black :
    DrawnFrom
      ({ Instrumentation.init with
        ioPA := wideStart.io.scrollStart
        ioPB := 0x10 } : Instrumentation).videoModeSnapshot.videoInfo wideStart :=
  (drawnFrom_iff
    { Instrumentation.init with ioPA := wideStart.io.scrollStart, ioPB := 0x10 }
    ⟨⟨rfl, rfl, rfl⟩, rfl, rfl, rfl, rfl, rfl⟩ rfl rfl).mpr ⟨rfl, fun _ _ => rfl⟩

/-- A pixel of the left half of the narrow mode is not mapped. -/
theorem narrow_not_drawnFrom : ¬ ∀ (inst : Instrumentation) (start : Screen Unit),
    start.FrameStart → start.picture.mode512 = inst.videoModeSnapshot.mode512 →
      start.io.scrollStart = inst.videoModeSnapshot.scrollValue →
        DrawnFrom inst.videoModeSnapshot.videoInfo start := by
  intro always
  have drawn := always
    { Instrumentation.init with
      ioPA := ((Board.powerOn () []).initFiller .standard).screen.io.scrollStart
      ioPB := 0 }
    ((Board.powerOn () []).initFiller .standard).screen
    ⟨⟨rfl, rfl, rfl⟩, rfl, rfl, rfl, rfl, rfl⟩ rfl rfl
  have mapped := drawn.mapped 32 16 (by unfold InPicture; omega)
  revert mapped
  decide

end VectorDebugger

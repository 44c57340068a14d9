import VectorDebugger.Machine.BeamTime

/-!
# The frame buffer

`PixelFiller` stores its pixels one after another from the offset that only its `reset` clears,
while the lines that it shows are counted by the beam. A `Canvas` is what decides where a pixel
goes. As long as no step takes the beam past the end of a frame and on to the first stored pixel
of the next one, each shown line fills its own row of the buffer, and only that.
-/

namespace VectorDebugger

/-- The options of the screen, as `options` bounds them. -/
structure ScreenOptions where
  /-- `border_width`. -/
  borderWidth : Nat
  /-- `screen_height`. -/
  screenHeight : Nat
  /-- `options` cuts the border to 104 pixels. -/
  border_le : borderWidth ≤ 104
  /-- There is a line to show. -/
  height_pos : 0 < screenHeight
  /-- Line zero is never shown. -/
  height_lt : screenHeight < 312

namespace ScreenOptions

/-- `DEFAULT_BORDER_WIDTH` and `DEFAULT_SCREEN_HEIGHT`. -/
def standard : ScreenOptions where
  borderWidth := 32
  screenHeight := 288
  border_le := by decide
  height_pos := by decide
  height_lt := by decide

/-- `screen_width`. -/
def screenWidth (options : ScreenOptions) : Nat := 512 + 2 * options.borderWidth

/-- `center_offset`. -/
def centerOffset (options : ScreenOptions) : Nat := 152 - options.borderWidth

/-- `first_visible_line`. -/
def firstVisibleLine (options : ScreenOptions) : Nat := 312 - options.screenHeight

/-- The pixels that `TV::init` allocates. -/
def bufferSize (options : ScreenOptions) : Nat := options.screenWidth * options.screenHeight

/-- The first beam position of a line that stores a pixel: the beam moves by two. -/
def firstColumn (options : ScreenOptions) : Nat :=
  options.centerOffset + options.centerOffset % 2

/-- The beam position that stores the first pixel of a frame. -/
def firstStored (options : ScreenOptions) : Nat :=
  options.firstVisibleLine * 768 + options.firstColumn

/-- Where the row of a line starts in the buffer. -/
def rowStart (options : ScreenOptions) (line : Nat) : Nat :=
  (line - options.firstVisibleLine) * options.screenWidth

/-- The pixels of a shown line that are stored before the beam is at `pixel`. -/
def columns (options : ScreenOptions) (pixel : Nat) : Nat :=
  min options.screenWidth (pixel - options.firstColumn)

/-- Whether the beam is over the columns that are stored. -/
def inWindow (options : ScreenOptions) (pixel : Nat) : Bool :=
  decide (options.centerOffset ≤ pixel) &&
    decide (pixel < options.centerOffset + options.screenWidth)

theorem firstVisibleLine_pos (options : ScreenOptions) : 0 < options.firstVisibleLine := by
  have height := options.height_lt
  unfold firstVisibleLine
  omega

theorem firstVisibleLine_lt (options : ScreenOptions) : options.firstVisibleLine < 312 := by
  have height := options.height_pos
  unfold firstVisibleLine
  omega

theorem firstColumn_le (options : ScreenOptions) : options.firstColumn ≤ 152 := by
  unfold firstColumn centerOffset
  omega

theorem firstStored_even (options : ScreenOptions) : options.firstStored % 2 = 0 := by
  unfold firstStored firstColumn
  omega

theorem columns_zero (options : ScreenOptions) : options.columns 0 = 0 := by
  unfold columns
  rw [Nat.zero_sub]
  exact Nat.min_zero _

/-- The whole line is stored when the beam leaves it. -/
theorem columns_end (options : ScreenOptions) : options.columns 768 = options.screenWidth := by
  have border := options.border_le
  unfold columns firstColumn centerOffset screenWidth
  omega

/-- A pass stores two pixels inside the window and none outside it. -/
theorem columns_step (options : ScreenOptions) (pixel : Nat) (even : pixel % 2 = 0) :
    options.columns (pixel + 2) =
      options.columns pixel + if options.inWindow pixel then 2 else 0 := by
  have border := options.border_le
  unfold columns firstColumn inWindow centerOffset screenWidth
  by_cases left : 152 - options.borderWidth ≤ pixel <;>
    by_cases right : pixel < 152 - options.borderWidth + (512 + 2 * options.borderWidth) <;>
    simp only [left, right, decide_true, decide_false, Bool.and_true, Bool.and_false,
      if_true, Bool.false_eq_true, if_false] <;> omega

/-- Inside the window there is room for two more pixels. -/
theorem columns_room (options : ScreenOptions) (pixel : Nat) (even : pixel % 2 = 0)
    (inside : options.inWindow pixel = true) :
    options.columns pixel + 2 ≤ options.screenWidth := by
  have step := options.columns_step pixel even
  rw [if_pos inside] at step
  have most : options.columns (pixel + 2) ≤ options.screenWidth := Nat.min_le_left _ _
  omega

theorem rowStart_first (options : ScreenOptions) :
    options.rowStart options.firstVisibleLine = 0 := by
  unfold rowStart
  rw [Nat.sub_self, Nat.zero_mul]

theorem rowStart_succ (options : ScreenOptions) {line : Nat}
    (shown : options.firstVisibleLine ≤ line) :
    options.rowStart (line + 1) = options.rowStart line + options.screenWidth := by
  unfold rowStart
  rw [Nat.succ_sub shown, Nat.succ_mul]

theorem rowStart_last (options : ScreenOptions) : options.rowStart 312 = options.bufferSize := by
  have height := options.height_lt
  have lines : 312 - options.firstVisibleLine = options.screenHeight := by
    unfold firstVisibleLine
    omega
  unfold rowStart bufferSize
  rw [lines, Nat.mul_comm]

/-- The row of a line is in the buffer. -/
theorem rowStart_inside (options : ScreenOptions) {line : Nat}
    (shown : options.firstVisibleLine ≤ line) (below : line < 312) :
    options.rowStart line + options.screenWidth ≤ options.bufferSize := by
  rw [← options.rowStart_succ shown, ← options.rowStart_last]
  apply Nat.mul_le_mul_right
  omega

end ScreenOptions

/-- What happens to the frame buffer. -/
inductive PixelEvent
  /-- A pixel is stored. -/
  | put (index : Nat)
  /-- The beam leaves a line, shown or not. -/
  | lineEnd (line : Nat) (visible : Bool)
  /-- `PixelFiller::reset`. -/
  | reset
deriving DecidableEq, Repr

namespace PixelEvent

/-- The indices stored since the beam entered its line. -/
def observe (since : List Nat) : PixelEvent → List Nat
  | .put index => since ++ [index]
  | .lineEnd .. | .reset => []

/-- What must hold of an event: a pixel is stored inside the buffer, and a shown line that ends
has filled its row, `screen_width` pixels. -/
def Accepted (options : ScreenOptions) (since : List Nat) : PixelEvent → Prop
  | .put index => index < options.bufferSize
  | .lineEnd line visible => visible = true →
    since = List.range' (options.rowStart line) options.screenWidth
  | .reset => True

/-- Every event of a trace is as it must be. -/
def Sound (options : ScreenOptions) : List Nat → List PixelEvent → Prop
  | _, [] => True
  | since, event :: events =>
    event.Accepted options since ∧ Sound options (event.observe since) events

theorem sound_append (options : ScreenOptions) (front back : List PixelEvent) :
    ∀ since, Sound options since (front ++ back) ↔
      Sound options since front ∧ Sound options (front.foldl observe since) back := by
  induction front with
  | nil => exact fun since => (and_iff_right trivial).symm
  | cons event events inductionHypothesis =>
    intro since
    have rest := inductionHypothesis (event.observe since)
    exact (and_congr_right fun _ => rest).trans and_assoc.symm

end PixelEvent

/-- What decides where `PixelFiller` stores a pixel. -/
structure Canvas where
  /-- `visible`. -/
  visible : Bool
  /-- `bmpofs`. -/
  bmpofs : Nat
deriving DecidableEq, Repr

namespace Canvas

/-- The pixels that one pass of `PixelFiller::fill1` stores. -/
def stores (options : ScreenOptions) (canvas : Canvas) (pixel : Nat) : List PixelEvent :=
  if canvas.visible && options.inWindow pixel then
    [.put canvas.bmpofs, .put (canvas.bmpofs + 1)]
  else []

/-- The end of the line, when the pass ends it. -/
def leaves (canvas : Canvas) (beam : Beam) : List PixelEvent :=
  if beam.endsLine then [.lineEnd beam.rasterLine canvas.visible] else []

/-- The canvas after one pass. -/
def pass (options : ScreenOptions) (updateScreen : Bool) (canvas : Canvas) (beam : Beam) :
    Canvas where
  visible :=
    if beam.endsLine then
      if beam.rasterLine + 1 = 312 then false
      else canvas.visible ||
        (updateScreen && beam.rasterLine + 1 == options.firstVisibleLine)
    else canvas.visible
  bmpofs := canvas.bmpofs + if canvas.visible && options.inWindow beam.rasterPixel then 2 else 0

/-- A canvas from its two values. -/
theorem eq_of {canvas : Canvas} {visible : Bool} {bmpofs : Nat}
    (seen : canvas.visible = visible) (offset : canvas.bmpofs = bmpofs) :
    canvas = ⟨visible, bmpofs⟩ := by
  rw [← seen, ← offset]

end Canvas

/-- The pixels that the beam can move, with updates, before one is stored outside the buffer. -/
def ScreenOptions.room (options : ScreenOptions) (beam : Beam) (canvas : Canvas) : Nat :=
  if canvas.bmpofs = options.bufferSize ∧ beam.position ≤ options.firstStored then
    options.firstStored - beam.position
  else if canvas.visible = false ∧ options.firstVisibleLine ≤ beam.rasterLine then
    Beam.framePixels - beam.position + Beam.framePixels + options.firstStored
  else Beam.framePixels - beam.position + options.firstStored

/-- The phases of a picture, with the indices stored since the beam entered its line and the
pixels that the beam can move before one is stored outside the buffer. -/
inductive Phase (options : ScreenOptions) : List Nat → Beam → Canvas → Nat → Prop
  /-- Before the first shown line. -/
  | above (beam : Beam) (line : beam.rasterLine < options.firstVisibleLine) :
    Phase options [] beam ⟨false, 0⟩ (Beam.framePixels - beam.position + options.firstStored)
  /-- In the lines of a frame that is not shown. -/
  | hidden (beam : Beam) (line : options.firstVisibleLine ≤ beam.rasterLine) :
    Phase options [] beam ⟨false, 0⟩
      (Beam.framePixels - beam.position + Beam.framePixels + options.firstStored)
  /-- In a shown line. -/
  | shown (beam : Beam) (line : options.firstVisibleLine ≤ beam.rasterLine) :
    Phase options
      (List.range' (options.rowStart beam.rasterLine) (options.columns beam.rasterPixel)) beam
      ⟨true, options.rowStart beam.rasterLine + options.columns beam.rasterPixel⟩
      (Beam.framePixels - beam.position + options.firstStored)
  /-- After a whole frame, before the first stored pixel of the next one. -/
  | full (beam : Beam) (ended : beam.brk = true)
      (before : beam.position ≤ options.firstStored) :
    Phase options [] beam
      ⟨decide (options.firstVisibleLine ≤ beam.rasterLine), options.bufferSize⟩
      (options.firstStored - beam.position)

namespace Beam

/-- The position, line and mark after a pass that does not end a line. -/
theorem clock_inside (beam : Beam) (clk : Nat) (inside : beam.endsLine = false) :
    (beam.clock clk).rasterLine = beam.rasterLine ∧
      (beam.clock clk).rasterPixel = beam.rasterPixel + 2 ∧ (beam.clock clk).brk = beam.brk := by
  have off : beam.rasterPixel + 2 ≠ 768 := by simpa [endsLine] using inside
  have moved : beam.advance.rasterLine = beam.rasterLine ∧
      beam.advance.rasterPixel = beam.rasterPixel + 2 ∧ beam.advance.brk = beam.brk := by
    unfold advance
    rw [dif_neg off]
    exact ⟨rfl, rfl, rfl⟩
  unfold clock
  dsimp only
  split
  · exact moved
  · split <;> exact moved

/-- The position, line and mark after a pass that ends a line. -/
theorem clock_end (beam : Beam) (clk : Nat) (ends : beam.endsLine = true) :
    (beam.clock clk).rasterPixel = 0 ∧
      if beam.rasterLine + 1 = 312 then
        (beam.clock clk).rasterLine = 0 ∧ (beam.clock clk).brk = true
      else (beam.clock clk).rasterLine = beam.rasterLine + 1 ∧
        (beam.clock clk).brk = beam.brk := by
  have on : beam.rasterPixel + 2 = 768 := by simpa [endsLine] using ends
  have moved : beam.advance.rasterPixel = 0 ∧
      if beam.rasterLine + 1 = 312 then beam.advance.rasterLine = 0 ∧ beam.advance.brk = true
      else beam.advance.rasterLine = beam.rasterLine + 1 ∧ beam.advance.brk = beam.brk := by
    unfold advance
    rw [dif_pos on]
    by_cases last : beam.rasterLine + 1 = 312
    · rw [dif_pos last, if_pos last]
      exact ⟨rfl, rfl, rfl⟩
    · rw [dif_neg last, if_neg last]
      exact ⟨rfl, rfl, rfl⟩
  unfold clock
  dsimp only
  split
  · exact moved
  · split <;> exact moved

end Beam

namespace Phase

open PixelEvent

variable {options : ScreenOptions} {since : List Nat} {beam : Beam} {canvas : Canvas} {room : Nat}

/-- A phase depends on the place of the beam and its mark only. -/
theorem congr {other : Beam} (phase : Phase options since beam canvas room)
    (line : other.rasterLine = beam.rasterLine) (pixel : other.rasterPixel = beam.rasterPixel)
    (brk : other.brk = beam.brk) : Phase options since other canvas room := by
  have place : other.position = beam.position := by
    unfold Beam.position
    rw [line, pixel]
  cases phase with
  | above beam high =>
    rw [← place]
    exact .above other (by rw [line]; exact high)
  | hidden beam low =>
    rw [← place]
    exact .hidden other (by rw [line]; exact low)
  | shown beam low =>
    rw [← line, ← pixel, ← place]
    exact .shown other (by rw [line]; exact low)
  | full beam ended before =>
    rw [← line, ← place]
    exact .full other (brk.trans ended) (by rw [place]; exact before)

/-- The phase with its room written another way. -/
theorem of_room {other : Nat} (phase : Phase options since beam canvas room)
    (same : room = other) : Phase options since beam canvas other := by
  rw [← same]
  exact phase

/-- What a phase means for the events and the canvas of a pass. -/
structure Passes (options : ScreenOptions) (updateScreen : Bool) (since : List Nat) (beam : Beam)
    (canvas : Canvas) (room clk : Nat) : Prop where
  /-- The pass stores its pixels in the buffer, and fills the row of a line that it ends. -/
  sound : Sound options since (canvas.stores options beam.rasterPixel ++ canvas.leaves beam)
  /-- It leaves a phase again. -/
  phase : Phase options
    ((canvas.stores options beam.rasterPixel ++ canvas.leaves beam).foldl observe since)
    (beam.clock clk) (canvas.pass options updateScreen beam) room

/-- What a pass leaves of a frame that has stored nothing. -/
theorem unseen_pass (options : ScreenOptions) (beam : Beam) (updateScreen : Bool) :
    Canvas.pass options updateScreen ⟨false, 0⟩ beam =
      ⟨beam.endsLine && (updateScreen && beam.rasterLine + 1 == options.firstVisibleLine), 0⟩ := by
  have first := options.firstVisibleLine_lt
  unfold Canvas.pass
  cases beam.endsLine with
  | false => rfl
  | true =>
    by_cases last : beam.rasterLine + 1 = 312
    · have inner : 312 ≠ options.firstVisibleLine := by omega
      rw [if_pos rfl, if_pos last, last, beq_eq_false_iff_ne.mpr inner, Bool.and_false]
      rfl
    · rw [if_pos rfl, if_neg last]
      rfl

/-- The events of such a pass are sound and leave nothing stored. -/
theorem unseen_sound (options : ScreenOptions) (beam : Beam) :
    Sound options [] (Canvas.stores options ⟨false, 0⟩ beam.rasterPixel ++
        Canvas.leaves ⟨false, 0⟩ beam) ∧
      (Canvas.stores options ⟨false, 0⟩ beam.rasterPixel ++
        Canvas.leaves ⟨false, 0⟩ beam).foldl observe [] = [] := by
  have stores : Canvas.stores options ⟨false, 0⟩ beam.rasterPixel = [] := rfl
  unfold Canvas.leaves
  rw [stores, List.nil_append]
  split
  · exact ⟨⟨nofun, trivial⟩, rfl⟩
  · exact ⟨trivial, rfl⟩

/-- Where the beam is after a pass. -/
theorem clock_place (beam : Beam) (clk : Nat) :
    (beam.clock clk).position = (beam.position + 2) % Beam.framePixels := by
  rw [Beam.clock_position]
  exact beam.advance_position.1

/-- Before the first shown line nothing is stored. -/
theorem above_passes (clk : Nat) (line : beam.rasterLine < options.firstVisibleLine) :
    Passes options true [] beam ⟨false, 0⟩
      (Beam.framePixels - beam.position + options.firstStored - 2) clk := by
  obtain ⟨sound, nothing⟩ := unseen_sound options beam
  have after := unseen_pass options beam true
  have first := options.firstVisibleLine_lt
  have pixel := beam.pixel_lt
  have size : Beam.framePixels = 239616 := rfl
  have position : beam.position = beam.rasterLine * 768 + beam.rasterPixel := rfl
  have place := clock_place beam clk
  rw [Nat.mod_eq_of_lt (by omega)] at place
  refine ⟨sound, ?_⟩
  rw [nothing, after]
  cases ends : beam.endsLine with
  | false =>
    obtain ⟨same, _⟩ := beam.clock_inside clk ends
    exact (above _ (by omega)).of_room (by omega)
  | true =>
    obtain ⟨start, next⟩ := beam.clock_end clk ends
    rw [if_neg (by omega)] at next
    rw [Bool.true_and, Bool.true_and]
    by_cases enters : beam.rasterLine + 1 = options.firstVisibleLine
    · have entered : (beam.clock clk).rasterLine = options.firstVisibleLine :=
        next.1.trans enters
      have lit := shown (beam.clock clk) (Nat.le_of_eq entered.symm)
      rw [entered, start, options.rowStart_first, options.columns_zero] at lit
      rw [beq_iff_eq.mpr enters]
      exact lit.of_room (by omega)
    · rw [beq_eq_false_iff_ne.mpr enters]
      exact (above _ (by omega)).of_room (by omega)

/-- In a frame that is not shown, nothing is stored. -/
theorem hidden_passes (clk : Nat) (line : options.firstVisibleLine ≤ beam.rasterLine) :
    Passes options true [] beam ⟨false, 0⟩
      (Beam.framePixels - beam.position + Beam.framePixels + options.firstStored - 2) clk := by
  obtain ⟨sound, nothing⟩ := unseen_sound options beam
  have after := unseen_pass options beam true
  have first := options.firstVisibleLine_pos
  have inside := beam.line_lt
  have pixel := beam.pixel_lt
  have even := beam.pixel_even
  have size : Beam.framePixels = 239616 := rfl
  have position : beam.position = beam.rasterLine * 768 + beam.rasterPixel := rfl
  have place := clock_place beam clk
  have other : beam.rasterLine + 1 ≠ options.firstVisibleLine := by omega
  refine ⟨sound, ?_⟩
  rw [nothing, after, beq_eq_false_iff_ne.mpr other, Bool.and_false, Bool.and_false]
  cases ends : beam.endsLine with
  | false =>
    obtain ⟨same, moved, _⟩ := beam.clock_inside clk ends
    have here := (beam.clock clk).pixel_lt
    rw [Nat.mod_eq_of_lt (by omega)] at place
    exact (hidden _ (by omega)).of_room (by omega)
  | true =>
    obtain ⟨start, next⟩ := beam.clock_end clk ends
    have full : beam.rasterPixel + 2 = 768 := by simpa [Beam.endsLine] using ends
    by_cases last : beam.rasterLine + 1 = 312
    · rw [if_pos last] at next
      have origin : (beam.clock clk).position = 0 := by
        unfold Beam.position
        rw [next.1, start]
      exact (above _ (by omega)).of_room (by omega)
    · rw [if_neg last] at next
      rw [Nat.mod_eq_of_lt (by omega)] at place
      exact (hidden _ (by omega)).of_room (by omega)

/-- Wherever the beam is, a frame that has stored nothing is in a phase, with room for the rest of
the frame. -/
theorem unseen (options : ScreenOptions) (beam : Beam) :
    ∃ room, Phase options [] beam ⟨false, 0⟩ room ∧
      Beam.framePixels - beam.position + options.firstStored ≤ room := by
  by_cases line : beam.rasterLine < options.firstVisibleLine
  · exact ⟨_, above beam line, Nat.le_refl _⟩
  · exact ⟨_, hidden beam (by omega), by omega⟩

/-- A frame without updates stores nothing. -/
theorem quiet_pass (beam : Beam) :
    Canvas.pass options false ⟨false, 0⟩ beam = ⟨false, 0⟩ := by
  rw [unseen_pass options beam false, Bool.false_and, Bool.and_false]

/-- A shown line fills its row. -/
theorem shown_passes (clk : Nat) (line : options.firstVisibleLine ≤ beam.rasterLine) :
    Passes options true (List.range' (options.rowStart beam.rasterLine)
        (options.columns beam.rasterPixel)) beam
      ⟨true, options.rowStart beam.rasterLine + options.columns beam.rasterPixel⟩
      (Beam.framePixels - beam.position + options.firstStored - 2) clk := by
  have even := beam.pixel_even
  have below := beam.pixel_lt
  have inFrame := beam.line_lt
  have size : Beam.framePixels = 239616 := rfl
  have position : beam.position = beam.rasterLine * 768 + beam.rasterPixel := rfl
  have place := clock_place beam clk
  have step := options.columns_step beam.rasterPixel even
  have inside := options.rowStart_inside line beam.line_lt
  set offset := options.rowStart beam.rasterLine + options.columns beam.rasterPixel with offsetEq
  -- the pixels of the pass continue the row
  have stored : Sound options
        (List.range' (options.rowStart beam.rasterLine) (options.columns beam.rasterPixel))
        (Canvas.stores options ⟨true, offset⟩ beam.rasterPixel) ∧
      (Canvas.stores options ⟨true, offset⟩ beam.rasterPixel).foldl observe
          (List.range' (options.rowStart beam.rasterLine) (options.columns beam.rasterPixel)) =
        List.range' (options.rowStart beam.rasterLine)
          (options.columns (beam.rasterPixel + 2)) := by
    unfold Canvas.stores
    rw [Bool.true_and]
    cases window : options.inWindow beam.rasterPixel with
    | false =>
      rw [step, window]
      exact ⟨trivial, rfl⟩
    | true =>
      have room := options.columns_room beam.rasterPixel even window
      rw [step, window, if_pos rfl, if_pos rfl]
      refine ⟨⟨?_, ?_, trivial⟩, ?_⟩
      · show offset < options.bufferSize
        omega
      · show offset + 1 < options.bufferSize
        omega
      · rw [← List.range'_append_1]
        exact List.append_assoc _ _ _
  have offsetAfter : (Canvas.pass options true ⟨true, offset⟩ beam).bmpofs =
      options.rowStart beam.rasterLine + options.columns (beam.rasterPixel + 2) := by
    rw [step, ← Nat.add_assoc, ← offsetEq]
    rfl
  cases ends : beam.endsLine with
  | false =>
    obtain ⟨same, moved, _⟩ := beam.clock_inside clk ends
    have here := (beam.clock clk).pixel_lt
    rw [Nat.mod_eq_of_lt (by omega)] at place
    have leaves : Canvas.leaves ⟨true, offset⟩ beam = [] := by
      unfold Canvas.leaves
      rw [ends]
      rfl
    have visible : (Canvas.pass options true ⟨true, offset⟩ beam).visible = true := by
      unfold Canvas.pass
      rw [ends]
      rfl
    have entered : options.firstVisibleLine ≤ (beam.clock clk).rasterLine := by omega
    have lit := shown (beam.clock clk) entered
    rw [same, moved] at lit
    refine ⟨by rw [leaves, List.append_nil]; exact stored.1, ?_⟩
    rw [leaves, List.append_nil, stored.2, Canvas.eq_of visible offsetAfter]
    exact lit.of_room (by omega)
  | true =>
    obtain ⟨start, next⟩ := beam.clock_end clk ends
    have full : beam.rasterPixel + 2 = 768 := by simpa [Beam.endsLine] using ends
    rw [full, options.columns_end] at stored offsetAfter
    have row := options.rowStart_succ line
    have leaves : Canvas.leaves ⟨true, offset⟩ beam = [.lineEnd beam.rasterLine true] := by
      unfold Canvas.leaves
      rw [ends]
      rfl
    refine ⟨?_, ?_⟩
    · rw [leaves, sound_append, stored.2]
      exact ⟨stored.1, fun _ => rfl, trivial⟩
    · rw [leaves, List.foldl_append]
      show Phase options [] _ _ _
      by_cases last : beam.rasterLine + 1 = 312
      · rw [if_pos last] at next
        rw [last, options.rowStart_last, ← offsetAfter] at row
        have visible : (Canvas.pass options true ⟨true, offset⟩ beam).visible =
            decide (options.firstVisibleLine ≤ (beam.clock clk).rasterLine) := by
          have first := options.firstVisibleLine_pos
          rw [next.1, decide_eq_false (by omega)]
          unfold Canvas.pass
          rw [ends, if_pos rfl, if_pos last]
        have origin : (beam.clock clk).position = 0 := by
          unfold Beam.position
          rw [next.1, start]
        rw [Canvas.eq_of visible row.symm]
        exact (Phase.full _ next.2 (by omega)).of_room (by omega)
      · rw [if_neg last] at next
        rw [Nat.mod_eq_of_lt (by omega)] at place
        have entered : options.firstVisibleLine ≤ (beam.clock clk).rasterLine := by omega
        have lit := shown (beam.clock clk) entered
        have visible : (Canvas.pass options true ⟨true, offset⟩ beam).visible = true := by
          unfold Canvas.pass
          rw [ends, if_pos rfl, if_neg last]
          rfl
        rw [next.1, start, options.columns_zero, Nat.add_zero, row] at lit
        rw [Canvas.eq_of visible offsetAfter]
        exact lit.of_room (by omega)

/-- After a whole frame nothing is stored before the first stored pixel of the next one. -/
theorem full_passes (clk : Nat) (ended : beam.brk = true)
    (before : beam.position < options.firstStored) :
    Passes options true [] beam
      ⟨decide (options.firstVisibleLine ≤ beam.rasterLine), options.bufferSize⟩
      (options.firstStored - beam.position - 2) clk := by
  have line := beam.line_lt
  have even := beam.pixel_even
  have column := options.firstColumn_le
  have first := options.firstVisibleLine_lt
  have size : Beam.framePixels = 239616 := rfl
  have position : beam.position = beam.rasterLine * 768 + beam.rasterPixel := rfl
  have target : options.firstStored =
    options.firstVisibleLine * 768 + options.firstColumn := rfl
  have parity := options.firstStored_even
  have border := options.border_le
  have place := clock_place beam clk
  rw [Nat.mod_eq_of_lt (by omega)] at place
  set shown := decide (options.firstVisibleLine ≤ beam.rasterLine) with shownEq
  have outside : (shown && options.inWindow beam.rasterPixel) = false := by
    by_contra inside
    simp only [Bool.not_eq_false, Bool.and_eq_true, shownEq, decide_eq_true_eq,
      ScreenOptions.inWindow] at inside
    have start : options.firstColumn = options.centerOffset + options.centerOffset % 2 := rfl
    omega
  have stores : Canvas.stores options ⟨shown, options.bufferSize⟩ beam.rasterPixel = [] := by
    unfold Canvas.stores
    rw [outside]
    rfl
  have offset : (Canvas.pass options true ⟨shown, options.bufferSize⟩ beam).bmpofs =
      options.bufferSize := by
    unfold Canvas.pass
    rw [outside]
    rfl
  cases ends : beam.endsLine with
  | false =>
    obtain ⟨sameLine, pixel, brk⟩ := beam.clock_inside clk ends
    have leaves : Canvas.leaves ⟨shown, options.bufferSize⟩ beam = [] := by
      unfold Canvas.leaves
      rw [ends]
      rfl
    have visible : (Canvas.pass options true ⟨shown, options.bufferSize⟩ beam).visible =
        decide (options.firstVisibleLine ≤ (beam.clock clk).rasterLine) := by
      rw [sameLine, ← shownEq]
      unfold Canvas.pass
      rw [ends]
      rfl
    refine ⟨by rw [stores, leaves]; trivial, ?_⟩
    rw [stores, leaves, Canvas.eq_of visible offset]
    exact (full _ (brk.trans ended) (by omega)).of_room (by omega)
  | true =>
    obtain ⟨_, next⟩ := beam.clock_end clk ends
    have full' : beam.rasterPixel + 2 = 768 := by simpa [Beam.endsLine] using ends
    have inner : beam.rasterLine + 1 ≠ 312 := by omega
    have dark : shown = false := by
      rw [shownEq]
      exact decide_eq_false (by omega)
    rw [if_neg inner] at next
    have leaves : Canvas.leaves ⟨shown, options.bufferSize⟩ beam =
        [.lineEnd beam.rasterLine false] := by
      unfold Canvas.leaves
      rw [ends, dark]
      rfl
    have visible : (Canvas.pass options true ⟨shown, options.bufferSize⟩ beam).visible =
        decide (options.firstVisibleLine ≤ (beam.clock clk).rasterLine) := by
      unfold Canvas.pass
      rw [ends, if_pos rfl, if_neg inner, dark, next.1, Bool.false_or, Bool.true_and]
      by_cases enters : beam.rasterLine + 1 = options.firstVisibleLine
      · rw [beq_iff_eq.mpr enters, decide_eq_true (by omega)]
      · rw [beq_eq_false_iff_ne.mpr enters, decide_eq_false (by omega)]
    refine ⟨by rw [stores, leaves]; exact ⟨nofun, trivial⟩, ?_⟩
    rw [stores, leaves, Canvas.eq_of visible offset]
    exact (full _ (next.2.trans ended) (by omega)).of_room (by omega)

/-- The room of a phase, from the beam and the canvas. -/
theorem room_eq (phase : Phase options since beam canvas room) :
    room = options.room beam canvas := by
  have line := beam.line_lt
  have position : beam.position = beam.rasterLine * 768 + beam.rasterPixel := rfl
  have target : options.firstStored =
    options.firstVisibleLine * 768 + options.firstColumn := rfl
  have height := options.height_pos
  have size : options.bufferSize = options.screenWidth * options.screenHeight := rfl
  have width : options.screenWidth = 512 + 2 * options.borderWidth := rfl
  have positive : options.bufferSize ≠ 0 := by
    rw [size]
    exact Nat.mul_ne_zero (by omega) (by omega)
  unfold ScreenOptions.room
  cases phase with
  | above beam above =>
    rw [if_neg fun both => positive both.1.symm, if_neg fun both => by omega]
  | hidden beam hidden =>
    rw [if_neg fun both => positive both.1.symm, if_pos ⟨rfl, hidden⟩]
  | shown beam shown =>
    have row := options.rowStart_inside shown line
    rw [if_neg ?_, if_neg fun both => Bool.noConfusion both.1]
    rintro ⟨whole, before⟩
    dsimp only at whole
    have most : options.columns beam.rasterPixel ≤ options.screenWidth := Nat.min_le_left _ _
    have columns : options.columns beam.rasterPixel =
      min options.screenWidth (beam.rasterPixel - options.firstColumn) := rfl
    omega
  | full beam ended before => rw [if_pos ⟨rfl, before⟩]

/-- While a frame lasts, there is room for an instruction and an interrupt. -/
theorem lasts (phase : Phase options since beam canvas room) (running : beam.brk = false) :
    160 ≤ room := by
  have first := options.firstVisibleLine_pos
  have target : options.firstStored =
    options.firstVisibleLine * 768 + options.firstColumn := rfl
  cases phase with
  | above beam line => omega
  | hidden beam line => omega
  | shown beam line => omega
  | full beam ended before =>
    rw [running] at ended
    cases ended

/-- A pass from any phase that has room for it. -/
theorem passes (phase : Phase options since beam canvas room) (clk : Nat) (some : 0 < room) :
    Passes options true since beam canvas (room - 2) clk := by
  cases phase with
  | above beam line => exact above_passes clk line
  | hidden beam line => exact hidden_passes clk line
  | shown beam line => exact shown_passes clk line
  | full beam ended before => exact full_passes clk ended (by omega)

/-- Without room, the pass stores the first pixel of the next frame outside the buffer. -/
theorem overflows (phase : Phase options since beam canvas 0) :
    ¬ Sound options since (canvas.stores options beam.rasterPixel ++ canvas.leaves beam) := by
  have position := beam.position_lt
  generalize none : 0 = room at phase
  cases phase with
  | above beam line => omega
  | hidden beam line => omega
  | shown beam line => omega
  | full beam ended before =>
    have place : beam.rasterLine * 768 + beam.rasterPixel =
        options.firstVisibleLine * 768 + options.firstColumn := by
      have start : beam.position = options.firstStored := by omega
      exact start
    have pixel := beam.pixel_lt
    have column := options.firstColumn_le
    have border := options.border_le
    have first : options.firstColumn = options.centerOffset + options.centerOffset % 2 := rfl
    have width : options.screenWidth = 512 + 2 * options.borderWidth := rfl
    have shown : decide (options.firstVisibleLine ≤ beam.rasterLine) = true :=
      decide_eq_true (by omega)
    have window : options.inWindow beam.rasterPixel = true := by
      unfold ScreenOptions.inWindow
      rw [decide_eq_true (by omega), decide_eq_true (by omega)]
      rfl
    unfold Canvas.stores
    rw [shown, window]
    intro sound
    exact Nat.lt_irrefl _ sound.1

/-- The room is even. -/
theorem room_even (phase : Phase options since beam canvas room) : room % 2 = 0 := by
  have size : Beam.framePixels = 239616 := rfl
  have parity := options.firstStored_even
  cases phase with
  | above beam line | hidden beam line | shown beam line | full beam ended before =>
    have position := beam.position_even
    have below := beam.position_lt
    omega

end Phase

end VectorDebugger

import VectorDebugger.Debugger.VideoMode

/-!
# Pixels and video memory

The debugger shows which byte of the video memory a pixel of the screen comes from, and where on
the screen a byte is. An address has sixteen bits, and the columns of the wide mode do not fit
between the base of the video memory and the end of the address space.
-/

namespace VectorDebugger

/-- `VramMapping::VideoInfo`, as far as the mapping reads it. -/
structure VideoInfo where
  /-- `mode512`. -/
  mode512 : Bool
  /-- `visibleWidth`. -/
  visibleWidth : Int
  /-- `visibleHeight`. -/
  visibleHeight : Int
  /-- `borderLeft`. -/
  borderLeft : Int
  /-- `borderTop`. -/
  borderTop : Int
  /-- `scrollValue`. -/
  scrollValue : Int
  /-- `vramBase`. -/
  vramBase : Word
  /-- `pixelsPerByte`. -/
  pixelsPerByte : Int

/-- The video information of a snapshot, whose `vramBase` is always the same. -/
def VideoModeSnapshot.videoInfo (snap : VideoModeSnapshot) : VideoInfo where
  mode512 := snap.mode512
  visibleWidth := snap.visibleWidth
  visibleHeight := snap.visibleHeight
  borderLeft := snap.borderLeft
  borderTop := snap.borderTop
  scrollValue := snap.scrollValue.toNat
  vramBase := 0xc000
  pixelsPerByte := snap.pixelsPerByte

namespace VideoInfo

/-- The pixel is in the visible area. -/
def Shows (video : VideoInfo) (bufX bufY : Int) : Prop :=
  video.borderLeft ≤ bufX ∧ bufX < video.borderLeft + video.visibleWidth ∧
    video.borderTop ≤ bufY ∧ bufY < video.borderTop + video.visibleHeight

instance (video : VideoInfo) (bufX bufY : Int) : Decidable (video.Shows bufX bufY) :=
  inferInstanceAs (Decidable (_ ∧ _))

/-- `VramMapping::screenToVram` — the address, if there is one. -/
def screenToVram (video : VideoInfo) (bufX bufY : Int) : Option Word :=
  if video.Shows bufX bufY then
    let visibleX := bufX - video.borderLeft
    let visibleLine := bufY - video.borderTop
    let vramRow := (video.scrollValue + visibleLine) % 256
    let vramCol := visibleX / video.pixelsPerByte
    some (BitVec.ofInt 16 (video.vramBase.toNat + vramCol * 256 + vramRow))
  else none

/-- `VramMapping::vramToScreen` — the position in the visible area, if it is valid. -/
def vramToScreen (video : VideoInfo) (vramAddr : Word) : Option (Int × Int) :=
  if vramAddr < video.vramBase then none
  else
    let offset : Int := vramAddr.toNat - video.vramBase.toNat
    let vramCol := offset / 256
    let vramRow := offset % 256
    let visibleLine := (vramRow - video.scrollValue) % 256
    if vramCol ≥ (if video.mode512 then 128 else 32) then none
    else some (vramCol * video.pixelsPerByte, visibleLine)

/-- Two pixels are in one byte cell. -/
def SameCell (video : VideoInfo) (bufX bufY otherX otherY : Int) : Prop :=
  (bufX - video.borderLeft) / video.pixelsPerByte =
    (otherX - video.borderLeft) / video.pixelsPerByte ∧ bufY = otherY

/-- A pixel has an address of the video memory, which leads back to the left edge of its byte cell,
and which is that of no other cell. -/
structure MapsBack (video : VideoInfo) (bufX bufY : Int) : Prop where
  back : ∃ addr, video.screenToVram bufX bufY = some addr ∧ video.vramBase ≤ addr ∧
    video.vramToScreen addr =
      some ((bufX - video.borderLeft) / video.pixelsPerByte * video.pixelsPerByte,
        bufY - video.borderTop)
  distinct : ∀ otherX otherY, video.Shows otherX otherY →
    video.screenToVram otherX otherY = video.screenToVram bufX bufY →
    video.SameCell bufX bufY otherX otherY

theorem toNat_ofInt (value : Int) : ((BitVec.ofInt 16 value).toNat : Int) = value % 65536 := by
  rw [BitVec.toNat_ofInt]
  exact Int.toNat_of_nonneg (Int.emod_nonneg value (by decide))

/-- The address of a column and a row, which wraps around at sixteen bits. -/
theorem screenToVram_toNat {video : VideoInfo} {bufX bufY : Int} (shown : video.Shows bufX bufY) :
    ∃ addr, video.screenToVram bufX bufY = some addr ∧
      (addr.toNat : Int) = (video.vramBase.toNat +
        (bufX - video.borderLeft) / video.pixelsPerByte * 256 +
        (video.scrollValue + (bufY - video.borderTop)) % 256) % 65536 :=
  ⟨_, if_pos shown, toNat_ofInt _⟩

/-- The position of an address at or above the base. -/
theorem vramToScreen_of_le {video : VideoInfo} {addr : Word} (above : video.vramBase ≤ addr)
    {offset : Int} (same : (addr.toNat : Int) = video.vramBase.toNat + offset)
    (col : offset / 256 < if video.mode512 then 128 else 32) :
    video.vramToScreen addr =
      some (offset / 256 * video.pixelsPerByte, (offset % 256 - video.scrollValue) % 256) := by
  have shifted : (addr.toNat : Int) - video.vramBase.toNat = offset := by omega
  unfold vramToScreen
  dsimp only
  rw [if_neg (by rw [BitVec.not_lt]; exact above), shifted, if_neg (by omega)]

/-- The wide mode, with a scroll value. -/
def wide (scroll : Byte) : VideoInfo := ⟨true, 512, 256, 32, 16, scroll.toNat, 0xc000, 4⟩

/-- The narrow mode, with a scroll value. -/
def narrow (scroll : Byte) : VideoInfo := ⟨false, 256, 256, 160, 16, scroll.toNat, 0xc000, 8⟩

/-- No two cells of a picture share an address. -/
theorem distinct {video : VideoInfo} (height : video.visibleHeight = 256)
    (cells : ∀ bufX bufY, video.Shows bufX bufY →
      0 ≤ (bufX - video.borderLeft) / video.pixelsPerByte ∧
        (bufX - video.borderLeft) / video.pixelsPerByte < 128)
    {bufX bufY otherX otherY : Int} (shown : video.Shows bufX bufY)
    (other : video.Shows otherX otherY)
    (same : video.screenToVram otherX otherY = video.screenToVram bufX bufY) :
    video.SameCell bufX bufY otherX otherY := by
  obtain ⟨addr, here, value⟩ := screenToVram_toNat shown
  obtain ⟨addr', there, value'⟩ := screenToVram_toNat other
  have shared : addr' = addr := Option.some.inj (there.symm.trans (same.trans here))
  have cell := cells bufX bufY shown
  have cell' := cells otherX otherY other
  obtain ⟨-, -, top, bottom⟩ := shown
  obtain ⟨-, -, top', bottom'⟩ := other
  rw [shared] at value'
  rw [height] at bottom bottom'
  unfold SameCell
  omega

/-- A pixel whose column fits above the base leads to its address and back. -/
theorem back_of_fits {video : VideoInfo} {scroll : Byte} (base : video.vramBase = 0xc000)
    (scrolls : video.scrollValue = scroll.toNat) (height : video.visibleHeight = 256)
    {bufX bufY : Int} (shown : video.Shows bufX bufY)
    (low : 0 ≤ (bufX - video.borderLeft) / video.pixelsPerByte)
    (fits : (bufX - video.borderLeft) / video.pixelsPerByte < 64)
    (most : (bufX - video.borderLeft) / video.pixelsPerByte < if video.mode512 then 128 else 32) :
    ∃ addr, video.screenToVram bufX bufY = some addr ∧ video.vramBase ≤ addr ∧
      video.vramToScreen addr =
        some ((bufX - video.borderLeft) / video.pixelsPerByte * video.pixelsPerByte,
          bufY - video.borderTop) := by
  obtain ⟨addr, here, value⟩ := screenToVram_toNat shown
  have small : scroll.toNat < 256 := scroll.isLt
  obtain ⟨-, -, top, bottom⟩ := shown
  have start : ((0xc000 : Word).toNat : Int) = 49152 := rfl
  rw [base, start] at value
  rw [height] at bottom
  have row : (video.scrollValue + (bufY - video.borderTop)) % 256 < 256 :=
    Int.emod_lt_of_pos _ (by decide)
  have row' : 0 ≤ (video.scrollValue + (bufY - video.borderTop)) % 256 :=
    Int.emod_nonneg _ (by decide)
  have whole : (addr.toNat : Int) = video.vramBase.toNat +
      ((bufX - video.borderLeft) / video.pixelsPerByte * 256 +
        (video.scrollValue + (bufY - video.borderTop)) % 256) := by
    rw [base, start]
    omega
  have above : video.vramBase ≤ addr := by
    rw [BitVec.le_def]
    omega
  refine ⟨addr, here, above, ?_⟩
  have column : ((bufX - video.borderLeft) / video.pixelsPerByte * 256 +
      (video.scrollValue + (bufY - video.borderTop)) % 256) / 256 =
        (bufX - video.borderLeft) / video.pixelsPerByte := by omega
  rw [vramToScreen_of_le above whole (by rw [column]; exact most), column]
  congr 2
  omega

/-- In the narrow mode every pixel and its address lead to each other. -/
theorem mapsBack_narrow {scroll : Byte} {bufX bufY : Int}
    (shown : (narrow scroll).Shows bufX bufY) : (narrow scroll).MapsBack bufX bufY := by
  have cells : ∀ bufX bufY, (narrow scroll).Shows bufX bufY →
      0 ≤ (bufX - (narrow scroll).borderLeft) / (narrow scroll).pixelsPerByte ∧
        (bufX - (narrow scroll).borderLeft) / (narrow scroll).pixelsPerByte < 32 := by
    intro bufX bufY shown
    obtain ⟨left, right, -, -⟩ := shown
    have first : (narrow scroll).borderLeft = 160 := rfl
    have width : (narrow scroll).visibleWidth = 256 := rfl
    have pixels : (narrow scroll).pixelsPerByte = 8 := rfl
    rw [first] at left right ⊢
    rw [width] at right
    rw [pixels]
    omega
  obtain ⟨low, most⟩ := cells bufX bufY shown
  refine ⟨back_of_fits rfl rfl rfl shown low (by omega) most, fun otherX otherY => ?_⟩
  exact distinct rfl (fun x y shown => ⟨(cells x y shown).1, by have := (cells x y shown).2; omega⟩)
    shown

/-- In the wide mode the pixels of the left half and their addresses lead to each other. -/
theorem mapsBack_wide_iff (scroll : Byte) {bufX bufY : Int}
    (shown : (wide scroll).Shows bufX bufY) :
    (wide scroll).MapsBack bufX bufY ↔ bufX - 32 < 256 := by
  have cells : ∀ bufX bufY, (wide scroll).Shows bufX bufY →
      0 ≤ (bufX - (wide scroll).borderLeft) / (wide scroll).pixelsPerByte ∧
        (bufX - (wide scroll).borderLeft) / (wide scroll).pixelsPerByte < 128 := by
    intro bufX bufY shown
    obtain ⟨left, right, -, -⟩ := shown
    have first : (wide scroll).borderLeft = 32 := rfl
    have width : (wide scroll).visibleWidth = 512 := rfl
    have pixels : (wide scroll).pixelsPerByte = 4 := rfl
    rw [first] at left right ⊢
    rw [width] at right
    rw [pixels]
    omega
  obtain ⟨low, most⟩ := cells bufX bufY shown
  have column : (bufX - (wide scroll).borderLeft) / (wide scroll).pixelsPerByte =
      (bufX - 32) / 4 := rfl
  constructor
  · intro maps
    obtain ⟨addr, here, above, -⟩ := maps.back
    obtain ⟨addr', here', value⟩ := screenToVram_toNat shown
    obtain rfl : addr = addr' := Option.some.inj (here.symm.trans here')
    have start : ((wide scroll).vramBase.toNat : Int) = 49152 := rfl
    have least : (wide scroll).vramBase.toNat ≤ addr.toNat := above
    have row : ((wide scroll).scrollValue + (bufY - (wide scroll).borderTop)) % 256 < 256 :=
      Int.emod_lt_of_pos _ (by decide)
    rw [column] at value low most
    omega
  · intro left
    refine ⟨back_of_fits rfl rfl rfl shown low (by rw [column]; omega) most, ?_⟩
    exact fun otherX otherY => distinct rfl cells shown

end VideoInfo

/-- Either mode, with the numbers of the snapshot. -/
theorem videoInfo_videoModeSnapshot (inst : Instrumentation) :
    inst.videoModeSnapshot.videoInfo =
      if inst.videoModeSnapshot.mode512 then .wide inst.ioPA else .narrow inst.ioPA := by
  unfold Instrumentation.videoModeSnapshot VideoModeSnapshot.videoInfo
  cases inst.ioPB &&& 0x10 != 0
  · rfl
  · rfl

/-- A pixel of the picture and its address lead to each other, except in the right half of the
wide mode, whose columns do not fit above the base. -/
theorem mapsBack_iff (inst : Instrumentation) {bufX bufY : Int}
    (shown : inst.videoModeSnapshot.videoInfo.Shows bufX bufY) :
    inst.videoModeSnapshot.videoInfo.MapsBack bufX bufY ↔
      inst.videoModeSnapshot.mode512 = false ∨
        bufX - inst.videoModeSnapshot.videoInfo.borderLeft < 256 := by
  have info := videoInfo_videoModeSnapshot inst
  cases mode : inst.videoModeSnapshot.mode512 with
  | false =>
    rw [mode, if_neg Bool.false_ne_true] at info
    rw [info] at shown ⊢
    exact iff_of_true (VideoInfo.mapsBack_narrow shown) (.inl rfl)
  | true =>
    rw [mode, if_pos rfl] at info
    rw [info] at shown ⊢
    rw [VideoInfo.mapsBack_wide_iff _ shown]
    exact ⟨.inr, fun either => either.resolve_left (by decide)⟩

/-- The first pixel of the wide mode. -/
theorem mapsBack_iff_first :
    VideoInfo.MapsBack
      ({ Instrumentation.init with ioPB := 0x10 } : Instrumentation).videoModeSnapshot.videoInfo
      32 16 :=
  (mapsBack_iff { Instrumentation.init with ioPB := 0x10 } (by decide)).mpr (.inr (by decide))

/-- The address of a pixel of the right half is below the base. -/
theorem mapsBack_fails : ¬ ∀ (inst : Instrumentation) (bufX bufY : Int),
    inst.videoModeSnapshot.videoInfo.Shows bufX bufY →
      inst.videoModeSnapshot.videoInfo.MapsBack bufX bufY := by
  intro always
  have maps := always { Instrumentation.init with ioPB := 0x10 } 288 16 (by decide)
  have left := (VideoInfo.mapsBack_wide_iff 0xff (by decide)).mp maps
  omega

end VectorDebugger

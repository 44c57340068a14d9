import VectorDebugger.Machine.Memory

/-!
# Input and output space

An `OUT` does not reach the device at once: it is held in a latch and committed while the
beam draws the instruction, at a pixel the board computes. The two parallel adapters are
modelled here; the chips behind the other ports (keyboard, timer, sound generator, disk
controller, tape) are a parameter, and every result below holds for any such chips.

The colour table is kept apart from the rest of the input/output state because no
instruction reads it.
-/

namespace VectorDebugger

/-- The chips reached through the ports, with their state `δ`. -/
class Chips (δ : Type) where
  /-- `Keyboard::read`. -/
  keyboardRead : δ → Byte → Byte
  /-- `Keyboard::ss`, `us` and `rus`, as the byte of port C they lower. -/
  keyboardModifiers : δ → Byte
  /-- `WavPlayer::sample`. -/
  tapeSample : δ → Bool
  /-- `WavPlayer::advance`. -/
  tapeAdvance : δ → Nat → δ
  /-- `I8253::read`. -/
  timerRead : δ → Nat → Byte × δ
  /-- `I8253::write`. -/
  timerWrite : δ → Nat → Byte → δ
  /-- `AY::read`. -/
  ayRead : δ → Nat → Byte
  /-- `AY::write`. -/
  ayWrite : δ → Nat → Byte → δ
  /-- `FD1793::read`. -/
  fdcRead : δ → Nat → Byte × δ
  /-- `FD1793::write`. -/
  fdcWrite : δ → Nat → Byte → δ
  /-- `Soundnik::soundSteps`: step count, tape out, Covox level and tape in. -/
  soundSteps : δ → Nat → Bool → Byte → Bool → δ
  /-- `Soundnik::reset`. -/
  soundReset : δ → δ
  /-- `rgb2pixelformat` on red, green and blue. -/
  rgb2pixelformat : Byte → Byte → Byte → BitVec 32

/-- Chips that answer every read with `FFh` and ignore every write. -/
instance silentChips : Chips Unit where
  keyboardRead _ _ := 0xff
  keyboardModifiers _ := 0xe0
  tapeSample _ := false
  tapeAdvance chips _ := chips
  timerRead chips _ := (0xff, chips)
  timerWrite chips _ _ := chips
  ayRead _ _ := 0xff
  ayWrite chips _ _ := chips
  fdcRead chips _ := (0xff, chips)
  fdcWrite chips _ _ := chips
  soundSteps chips _ _ _ _ := chips
  soundReset chips := chips
  rgb2pixelformat red green blue := (blue ++ green ++ red).setWidth 32

/-- `IO` without its colour table. -/
structure Io (δ : Type) where
  /-- Control word of the first adapter. -/
  cw : Byte
  /-- Port A of the first adapter: the scroll register. -/
  pa : Byte
  /-- Port B of the first adapter: border colour and video mode. -/
  pb : Byte
  /-- Port C of the first adapter. -/
  pc : Byte
  /-- Last byte written to the first adapter. -/
  pia1Last : Byte
  /-- Control word of the second adapter. -/
  cw2 : Byte
  /-- Port A of the second adapter: the Covox level. -/
  pa2 : Byte
  /-- Port B of the second adapter. -/
  pb2 : Byte
  /-- Port C of the second adapter. -/
  pc2 : Byte
  /-- `outport` and `outbyte`, which the source sets and clears together. -/
  outport : Option (Byte × Byte)
  /-- A palette byte waiting for its commit pixel. -/
  palettebyte : Option Byte
  /-- The chips behind the other ports. -/
  chips : δ

/-- What a committed write reaches: the ports, the banking control of the memory, and the
value of port B when `onborderchange` and `onmodechange` fired with it. -/
structure Commit (δ : Type) where
  /-- Ports and chips after the write. -/
  io : Io δ
  /-- Memory after the write. -/
  memory : Memory
  /-- Port B as reported to the filler, when it was written. -/
  video : Option Byte

namespace Io

variable {δ : Type} [Chips δ]

/-- `IO::IO`. -/
def init (chips : δ) : Io δ where
  cw := 0x08
  pa := 0xff
  pb := 0xff
  pc := 0xff
  pia1Last := 0
  cw2 := 0
  pa2 := 0xff
  pb2 := 0xff
  pc2 := 0xff
  outport := none
  palettebyte := none
  chips := chips

/-- Port 01h as `IO::input` computes it from port C, the keyboard and the tape. -/
def inputPortC (io : Io δ) : Byte :=
  let pclow := if io.cw &&& 0x01 != 0 then 0x0b else io.pc &&& 0x0f
  let pcupp :=
    if io.cw &&& 0x08 != 0 then
      (if Chips.tapeSample io.chips then 0x10 else 0) ||| Chips.keyboardModifiers io.chips
    else io.pc &&& 0xf0
  pclow ||| pcupp

/-- The timer and disk register selected by a port. -/
def inverted (port : Byte) : Nat := 3 - (port &&& 3).toNat

/-- `IO::input`. -/
def input (io : Io δ) (port : Byte) : Byte × Io δ :=
  match port.toNat with
  | 0x01 => (io.inputPortC, io)
  | 0x02 => (if io.cw &&& 0x02 != 0 then Chips.keyboardRead io.chips (~~~io.pa) else io.pb, io)
  | 0x03 => (if io.cw &&& 0x10 == 0 then io.pa else 0xff, io)
  | 0x04 => (io.cw2, io)
  | 0x05 => (io.pc2, io)
  | 0x06 => (io.pb2, io)
  | 0x07 => (io.pa2, io)
  | 0x08 | 0x09 | 0x0a | 0x0b =>
    let (value, chips) := Chips.timerRead io.chips (inverted port)
    (value, { io with chips })
  | 0x14 | 0x15 => (Chips.ayRead io.chips (port &&& 1).toNat, io)
  | 0x18 | 0x19 | 0x1a | 0x1b =>
    let (value, chips) := Chips.fdcRead io.chips (inverted port)
    (value, { io with chips })
  | _ => (0xff, io)

/-- `IO::output` — the write waits in the latch. -/
def output (io : Io δ) (port w8 : Byte) : Io δ :=
  { io with outport := some (port, w8) }

/-- Bit set and reset of port C through port 00h. -/
def bsr (io : Io δ) (w8 : Byte) : Io δ :=
  let mask : Byte := 1 <<< ((w8 >>> 1) &&& 7).toNat
  { io with
    pia1Last := w8
    pc := if w8 &&& 1 == 1 then io.pc ||| mask else io.pc &&& ~~~mask }

/-- A control word on port 00h, which writes zero to the three ports of the adapter. -/
def controlWord (io : Io δ) (w8 : Byte) : Io δ :=
  { io with cw := w8, pc := 0, pb := 0, pa := 0, pia1Last := 0 }

/-- `IO::realoutput`. -/
def realoutput (io : Io δ) (memory : Memory) (port w8 : Byte) : Commit δ :=
  let plain (io' : Io δ) : Commit δ := { io := io', memory, video := none }
  match port.toNat with
  | 0x00 =>
    if w8 &&& 0x80 == 0 then plain (io.bsr w8)
    else { io := io.controlWord w8, memory, video := some 0 }
  | 0x01 => plain { io with pia1Last := w8, pc := w8 }
  | 0x02 => { io := { io with pia1Last := w8, pb := w8 }, memory, video := some w8 }
  | 0x03 => plain { io with pia1Last := w8, pa := w8 }
  | 0x04 => plain { io with cw2 := w8 }
  | 0x05 => plain { io with pc2 := w8 }
  | 0x06 => plain { io with pb2 := w8 }
  | 0x07 => plain { io with pa2 := w8 }
  | 0x08 | 0x09 | 0x0a | 0x0b =>
    plain { io with chips := Chips.timerWrite io.chips (inverted port) w8 }
  | 0x0c | 0x0d | 0x0e | 0x0f => plain { io with palettebyte := some w8 }
  | 0x10 => { io, memory := memory.controlWrite w8, video := none }
  | 0x14 | 0x15 => plain { io with chips := Chips.ayWrite io.chips (port &&& 1).toNat w8 }
  | 0x18 | 0x19 | 0x1a | 0x1b =>
    plain { io with chips := Chips.fdcWrite io.chips (inverted port) w8 }
  | 0x1c => plain { io with chips := Chips.fdcWrite io.chips 4 w8 }
  | _ => plain io

/-- `IO::commit`. -/
def commit (io : Io δ) (memory : Memory) : Commit δ :=
  match io.outport with
  | none => { io, memory, video := none }
  | some (port, w8) =>
    let done := io.realoutput memory port w8
    { done with io := { done.io with outport := none } }

/-- `IO::commit_palette` — the byte that programs the colour table, if any, and the ports
after it. The table entry itself is written by `Palette.commit`. -/
def commitPalette (io : Io δ) : Option Byte × Io δ :=
  match io.palettebyte, io.outport with
  | some w8, _ => (some w8, { io with palettebyte := none })
  | none, some (0x0c, w8) => (some w8, { io with outport := none, palettebyte := none })
  | none, _ => (none, io)

/-- `IO::BorderIndex`. -/
def borderIndex (io : Io δ) : Byte := io.pb &&& 0x0f

/-- `IO::ScrollStart`. -/
def scrollStart (io : Io δ) : Byte := io.pa

/-- `IO::Mode512`. -/
def mode512 (io : Io δ) : Bool := io.pb &&& 0x10 != 0

/-- `IO::TapeOut`. -/
def tapeOut (io : Io δ) : Bool := io.pc &&& 1 != 0

/-- `IO::Covox`. -/
def covox (io : Io δ) : Byte := io.pa2

end Io

/-- The colour table of `IO`: displayed colours and the raw bytes kept for the debugger. -/
structure Palette where
  /-- `palette`. -/
  colours : Nat → BitVec 32
  /-- `raw_palette`. -/
  raw : Nat → Byte

/-- The table write of `IO::commit_palette`. -/
def Palette.commit (δ : Type) [Chips δ] (palette : Palette) (index : Nat) (w8 : Byte) : Palette where
  colours := Function.update palette.colours index
    (Chips.rgb2pixelformat δ (w8 &&& 0x07) ((w8 &&& 0x38) >>> 3) ((w8 &&& 0xc0) >>> 6))
  raw := Function.update palette.raw index w8

end VectorDebugger

import Mathlib.Logic.Function.Iterate
import VectorDebugger.Machine.Io

/-!
# The sound generator

The registers and counters of `AY`. The guest reaches it through two ports, one that selects a
register and one that reads or writes the selected register. The levels that it mixes are indices
into a table of amplitudes; the amplitudes themselves, which are floating-point numbers, are left
out.
-/

namespace VectorDebugger

/-- `AY`. -/
structure Ay where
  /-- `ayr` — sixteen registers and three tone counters. -/
  ayr : Nat → Nat
  /-- `envc`. -/
  envc : Nat
  /-- `envv`. -/
  envv : Nat
  /-- `envx`. -/
  envx : Nat
  /-- `ay13`. -/
  ay13 : Nat
  /-- `tons`. -/
  tons : Nat
  /-- `noic`. -/
  noic : Nat
  /-- `noiv`. -/
  noiv : Nat
  /-- `noir`. -/
  noir : Nat
  /-- `ayreg` — the selected register. -/
  ayreg : Nat

namespace Ay

/-- `AY::init`. -/
def init : Ay where
  ayr := fun _ => 0
  envc := 0
  envv := 0
  envx := 0
  ay13 := 0
  tons := 0
  noic := 0
  noiv := 0
  noir := 1
  ayreg := 0

/-- `rmask`. -/
def rmask : List Nat :=
  [0xff, 0x0f, 0xff, 0x0f, 0xff, 0x0f, 0x1f, 0xff, 0x1f, 0x1f, 0x1f, 0xff, 0xff, 0x0f, 0xff, 0xff]

/-- The shape that a write to register 13 leaves in `ay13`. -/
def envelopeShape (val : Nat) : Nat :=
  if val &&& 0xc = 0x00 then 9 else if val &&& 0xc = 4 then 15 else val

/-- `AY::write`. -/
def write (ay : Ay) (addr val : Nat) : Ay :=
  if addr = 1 then { ay with ayreg := val &&& 0x0f }
  else
    let stored := { ay with
      ayr := Function.update ay.ayr ay.ayreg (val &&& rmask.getD ay.ayreg 0) }
    if ay.ayreg = 13 then { stored with envx := 0, ay13 := envelopeShape val } else stored

/-- `AY::read`. -/
def read (ay : Ay) (addr : Nat) : Nat := if addr = 1 then ay.ayreg else ay.ayr ay.ayreg

/-- The counter of one tone channel in `AY::cstep`. -/
def toneStep (ay : Ay) (ch : Nat) : Ay :=
  let counted := ay.ayr (ch + 16) + 1
  if counted ≥ ay.ayr (ch <<< 1) ||| ay.ayr (1 ||| (ch <<< 1)) <<< 8 then
    { ay with ayr := Function.update ay.ayr (ch + 16) 0, tons := ay.tons ^^^ (1 <<< ch) }
  else { ay with ayr := Function.update ay.ayr (ch + 16) counted }

/-- Whether a channel sounds, and the index of its amplitude: the two factors of the result of
`AY::cstep`. -/
def channelLevel (ay : Ay) (ch : Nat) : Bool × Nat :=
  let mixer := ay.ayr 7
  let mix := ((mixer >>> ch ||| ay.tons >>> ch) &&& (mixer >>> (ch + 3) ||| ay.noiv)) &&& 1
  (mix != 0, if ay.ayr (8 + ch) &&& 0x10 != 0 then ay.envv else ay.ayr (8 + ch) &&& 0x0f)

/-- `AY::cstep`. -/
def cstep (ay : Ay) (ch : Nat) : (Bool × Nat) × Ay :=
  let counted := ay.toneStep ch
  (counted.channelLevel ch, counted)

/-- `AY::estep`. -/
def estep (ay : Ay) : Nat × Ay :=
  if ay.envx >>> 4 ≠ 0 ∧ ay.ay13 &&& 1 ≠ 0 then
    (15 * (((ay.ay13 >>> 1) ^^^ ay.ay13) &&& 2) / 2, ay)
  else
    let wrapped :=
      if ay.envx >>> 4 ≠ 0 then
        { ay with envx := 0, ay13 := ay.ay13 ^^^ ((ay.ay13 <<< 1) &&& 4) }
      else ay
    (if wrapped.ay13 &&& 4 ≠ 0 then wrapped.envx else 15 - wrapped.envx,
      { wrapped with envx := wrapped.envx + 1 })

/-- The envelope counter in `AY::step`. -/
def envelopeStep (ay : Ay) : Ay :=
  let counted := ay.envc + 1
  if counted ≥ (ay.ayr 11 <<< 1 ||| ay.ayr 12 <<< 9) then
    let stepped := ({ ay with envc := 0 } : Ay).estep
    { stepped.2 with envv := stepped.1 }
  else { ay with envc := counted }

/-- The noise counter in `AY::step`. -/
def noiseStep (ay : Ay) : Ay :=
  let counted := ay.noic + 1
  if counted ≥ ay.ayr 6 <<< 1 then
    let noiv := ay.noir &&& 1
    { ay with noic := 0, noiv, noir := (ay.noir ^^^ (noiv * 0x24000)) >>> 1 }
  else { ay with noic := counted }

/-- `AY::step`, with what the three channels contribute. -/
def step (ay : Ay) : List (Bool × Nat) × Ay :=
  let moved := ay.envelopeStep.noiseStep
  let a := moved.cstep 0
  let b := a.2.cstep 1
  let c := b.2.cstep 2
  ([a.1, b.1, c.1], c.2)

end Ay

/-- `AYWrapper`, without the level it holds between steps. -/
structure AyWrapper where
  /-- `ay`. -/
  ay : Ay
  /-- `ayAccu`. -/
  ayAccu : Nat

namespace AyWrapper

/-- `AYWrapper::step2`. -/
def step2 (wrapper : AyWrapper) (instrTime : Nat) : AyWrapper :=
  let total := wrapper.ayAccu + 7 * instrTime
  { ay := (fun ay => ay.step.2)^[total / 96] wrapper.ay, ayAccu := total % 96 }

/-- `AYWrapper::reset`. -/
def reset (wrapper : AyWrapper) : AyWrapper := { wrapper with ay := Ay.init }

end AyWrapper

/-- A machine whose sound generator is `AY` and whose other chips are silent. -/
instance ayChips : Chips AyWrapper where
  keyboardRead _ _ := 0xff
  keyboardModifiers _ := 0xe0
  tapeSample _ := false
  tapeAdvance chips _ := chips
  timerRead chips _ := (0xff, chips)
  timerWrite chips _ _ := chips
  ayRead chips addr := BitVec.ofNat 8 (chips.ay.read addr)
  ayWrite chips addr val := { chips with ay := chips.ay.write addr val.toNat }
  fdcRead chips _ := (0xff, chips)
  fdcWrite chips _ _ := chips
  soundSteps chips count _ _ _ := (·.step2 2)^[count] chips
  soundReset chips := chips.reset
  rgb2pixelformat red green blue := (blue ++ green ++ red).setWidth 32

/-- The guest's writes to ports 14h and 15h reach the sound generator, and nothing else of it. -/
theorem realoutput_ay (io : Io AyWrapper) (memory : Memory) (port w8 : Byte)
    (sound : port = 0x14 ∨ port = 0x15) :
    (io.realoutput memory port w8).io.chips =
      { io.chips with ay := io.chips.ay.write (port &&& 1).toNat w8.toNat } := by
  obtain rfl | rfl := sound
  · rfl
  · rfl

end VectorDebugger

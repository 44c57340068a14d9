import VectorDebugger.Machine.Io

/-!
# The timer

`I8253` has three counters. An address selects one of them or the control word, and the two high
bits of a control word select one of four, the last of which is not there. An access to a counter
that is not there is undefined in the source; here it leaves no timer.
-/

namespace VectorDebugger

/-- There are three counters. -/
instance neZero_counters : NeZero 3 := ⟨by decide⟩

/-- A device has four ports, and the controller four drives. -/
instance neZero_ports : NeZero 4 := ⟨by decide⟩

/-- `CounterUnit`. -/
structure CounterUnit where
  /-- `latch_value`, or -1. -/
  latchValue : Int
  /-- `write_state`. -/
  writeState : Nat
  /-- `latch_mode`. -/
  latchMode : Nat
  /-- `out`. -/
  out : Int
  /-- `value`. -/
  value : Int
  /-- `mode_int`. -/
  modeInt : Nat
  /-- `write_lsb`. -/
  writeLsb : Byte
  /-- `write_msb`. -/
  writeMsb : Byte
  /-- `loadvalue`. -/
  loadvalue : Word
  /-- `armed`. -/
  armed : Bool
  /-- `load`. -/
  load : Bool
  /-- `enabled`. -/
  enabled : Bool
  /-- `bcd`. -/
  bcd : Bool
  /-- `delay`. -/
  delay : Nat
deriving DecidableEq, Repr

namespace CounterUnit

/-- The number of values that a counter runs through. -/
def span (ctr : CounterUnit) : Int := if ctr.bcd then 10000 else 0x10000

/-- The count of mode 0, to the terminal count. -/
def countTerminal (ctr : CounterUnit) : CounterUnit × Int :=
  let loaded :=
    if ctr.load then
      { ctr with value := ctr.loadvalue.toNat, enabled := true, armed := true, out := 0 }
    else ctr
  let result := if ctr.load then 0 else ctr.out
  if loaded.enabled then
    let value := loaded.value - 1
    if value ≤ 0 then
      let ended :=
        if loaded.armed then
          { loaded with out := if loaded.value ≠ 0 then 1 else loaded.out, armed := false }
        else loaded
      ({ ended with value := value + ended.span },
        if loaded.armed then -value + 1 else result)
    else ({ loaded with value }, result)
  else (loaded, result)

/-- The count of mode 1, whose value is not loaded. -/
def countOneShot (ctr : CounterUnit) : CounterUnit :=
  let begun := if !ctr.enabled && ctr.load then { ctr with enabled := true } else ctr
  if begun.enabled then
    let value := begun.value - 1
    let reload := if begun.loadvalue = 0 then begun.span else begun.loadvalue.toNat + 1
    { begun with value := if value ≤ 0 then value + reload else value }
  else begun

/-- A counter that is not enabled takes the value to load. -/
def begin (ctr : CounterUnit) : CounterUnit :=
  if !ctr.enabled && ctr.load then { ctr with value := ctr.loadvalue.toNat, enabled := true }
  else ctr

/-- What the modes 2 and 3 add at the end of a period. -/
def reload (ctr : CounterUnit) : Int :=
  if ctr.loadvalue = 0 then ctr.span else ctr.loadvalue.toNat

/-- The count of mode 2. -/
def countRate (ctr : CounterUnit) : CounterUnit :=
  let begun := ctr.begin
  if begun.enabled then
    let value := begun.value - 1
    { begun with value := if value ≤ 0 then value + begun.reload else value }
  else begun

/-- The count of mode 3. -/
def countSquare (ctr : CounterUnit) : CounterUnit :=
  let begun := ctr.begin
  if begun.enabled then
    let value := begun.value -
      if begun.value = begun.loadvalue.toNat ∧ begun.value % 2 = 1 then
        if begun.out = 0 then 3 else 1
      else 2
    if value ≤ 0 then
      { begun with out := Int.xor begun.out 1, value := value + begun.reload }
    else { begun with value }
  else begun

/-- `CounterUnit::Count`, which counts one cycle whatever its argument is. -/
def count (ctr : CounterUnit) : CounterUnit × Int :=
  if ctr.delay ≠ 0 then ({ ctr with delay := ctr.delay - 1 }, ctr.out)
  else if !ctr.enabled && !ctr.load then (ctr, ctr.out)
  else
    let counted := match ctr.modeInt with
      | 0 => ctr.countTerminal
      | 1 => (ctr.countOneShot, ctr.out)
      | 2 => (ctr.countRate, ctr.out)
      | 3 => (ctr.countSquare, ctr.countSquare.out)
      | _ => (ctr, ctr.out)
    ({ counted.1 with load := false }, counted.2)

/-- `CounterUnit::SetMode`. -/
def setMode (ctr : CounterUnit) (newMode newLatchMode : Nat) (newBcdMode : Bool) : CounterUnit :=
  let counted := ctr.count.1
  let modeInt := if newMode % 4 = 2 then 2 else if newMode % 4 = 3 then 3 else newMode
  { counted with
    delay := 1
    bcd := newBcdMode
    modeInt
    out := if modeInt = 0 then 0 else 1
    armed := if modeInt = 0 ∨ modeInt = 1 then true else counted.armed
    enabled := false
    load := false
    latchMode := newLatchMode
    writeState := 0 }

/-- `CounterUnit::Latch`. -/
def latch (ctr : CounterUnit) : CounterUnit :=
  let counted := ctr.count.1
  { counted with delay := 1, latchValue := counted.value }

/-- `CounterUnit::tobcd`, for as many digits. -/
def tobcd : Nat → Nat → Nat
  | 0, _ => 0
  | digits + 1, x => x % 10 + 16 * tobcd digits (x / 10)

/-- `CounterUnit::frombcd` of the digits from the highest on. -/
def frombcd (x : Word) : Word :=
  [12, 8, 4, 0].foldl
    (fun result shift =>
      let digit := (x >>> shift) &&& 0xf
      result * 10 + if digit > 9 then 9 else digit) 0

/-- The wait after a value was loaded. -/
def loadDelay (ctr : CounterUnit) : Nat :=
  match ctr.modeInt with
  | 0 => 3
  | 1 | 2 | 3 => if ctr.enabled then ctr.delay else 3
  | _ => 4

/-- `CounterUnit::write_value`. -/
def writeValue (ctr : CounterUnit) (w8 : Byte) : CounterUnit :=
  let written :=
    if ctr.latchMode = 3 then
      match ctr.writeState with
      | 0 => { ctr with writeLsb := w8, writeState := 1 }
      | 1 =>
        { ctr with
          writeMsb := w8, writeState := 0, loadvalue := wordOf ctr.writeLsb w8, load := true }
      | _ => ctr
    else if ctr.latchMode = 1 then { ctr with loadvalue := w8.setWidth 16, load := true }
    else if ctr.latchMode = 2 then
      { ctr with value := (wordOf 0 w8).toNat, loadvalue := wordOf 0 w8, load := true }
    else ctr
  if written.load then
    { written with
      loadvalue := if written.bcd then frombcd written.loadvalue else written.loadvalue
      delay := written.loadDelay }
  else written

/-- The value that is read: the latched one, or the current one. -/
def shownValue (ctr : CounterUnit) : Word :=
  let value := BitVec.ofInt 16 (if ctr.latchValue ≠ -1 then ctr.latchValue else ctr.value)
  if ctr.bcd then BitVec.ofNat 16 (tobcd 4 value.toNat) else value

/-- `CounterUnit::read_value`. -/
def readValue (ctr : CounterUnit) : CounterUnit × Byte :=
  match ctr.latchMode with
  | 1 => ({ ctr with latchValue := -1 }, ctr.shownValue.low)
  | 2 => ({ ctr with latchValue := -1 }, ctr.shownValue.high)
  | 3 =>
    match ctr.writeState with
    | 0 => ({ ctr with writeState := 1 }, ctr.shownValue.low)
    | 1 => ({ ctr with latchValue := -1, writeState := 0 }, ctr.shownValue.high)
    | _ => (ctr, ctr.shownValue.low)
  | _ => (ctr, 0)

end CounterUnit

/-- `I8253`. -/
structure I8253 where
  /-- `counters`. -/
  counters : Fin 3 → CounterUnit
  /-- `control_word`. -/
  controlWord : Byte

namespace I8253

/-- The counter with a number changes, if there is one. -/
def update (timer : I8253) (index : Nat) (change : CounterUnit → CounterUnit) : Option I8253 :=
  if inside : index < 3 then
    some { timer with
      counters := Function.update timer.counters ⟨index, inside⟩
        (change (timer.counters ⟨index, inside⟩)) }
  else none

/-- `I8253::write_cw`. -/
def writeCw (timer : I8253) (w8 : Byte) : Option I8253 :=
  let counterSet := ((w8 >>> 6) &&& 3).toNat
  let modeSet := ((w8 >>> 1) &&& 3).toNat
  let latchSet := ((w8 >>> 4) &&& 3).toNat
  timer.update counterSet fun ctr =>
    if latchSet = 0 then ctr.latch else ctr.setMode modeSet latchSet (w8 &&& 1 != 0)

/-- `I8253::write`. -/
def write (timer : I8253) (addr : Nat) (w8 : Byte) : Option I8253 :=
  match addr % 4 with
  | 3 => timer.writeCw w8
  | index => timer.update index fun ctr => ctr.writeValue w8

/-- `I8253::read`. -/
def read (timer : I8253) (addr : Nat) : Option (Byte × I8253) :=
  match addr % 4 with
  | 3 => some (timer.controlWord, timer)
  | index =>
    if inside : index < 3 then
      let value := (timer.counters ⟨index, inside⟩).readValue
      some (value.2,
        { timer with counters := Function.update timer.counters ⟨index, inside⟩ value.1 })
    else none

/-- `I8253::Count`. -/
def count (timer : I8253) : I8253 :=
  { timer with counters := fun index => (timer.counters index).count.1 }

end I8253

/-- A counter as constructed; what the source leaves uninitialised is zero here. -/
def CounterUnit.init : CounterUnit where
  latchValue := -1
  writeState := 0
  latchMode := 0
  out := 0
  value := 0
  modeInt := 0
  writeLsb := 0
  writeMsb := 0
  loadvalue := 0
  armed := false
  load := false
  enabled := false
  bcd := false
  delay := 0

/-- `I8253::I8253`. -/
def I8253.init : I8253 where
  counters := fun _ => .init
  controlWord := 0

/-- A board with the timer as its only chip; none is left after an access to a counter that is not
there. -/
instance timerChips : Chips (Option I8253) where
  keyboardRead _ _ := 0xff
  keyboardModifiers _ := 0xe0
  tapeSample _ := false
  tapeAdvance chips _ := chips
  timerRead chips addr :=
    match chips.bind (·.read addr) with
    | some (value, timer) => (value, some timer)
    | none => (0xff, none)
  timerWrite chips addr w8 := chips.bind (·.write addr w8)
  ayRead _ _ := 0xff
  ayWrite chips _ _ := chips
  fdcRead chips _ := (0xff, chips)
  fdcWrite chips _ _ := chips
  soundSteps chips _ _ _ _ := chips.map (·.count)
  soundReset chips := chips
  rgb2pixelformat red green blue := (blue ++ green ++ red).setWidth 32

/-- What a guest does with the four ports of the timer, while sound is made. -/
inductive TimerAccess
  /-- A port is read. -/
  | read (port : Fin 4)
  /-- A port is written, and the write committed. -/
  | write (port : Fin 4) (w8 : Byte)
  /-- The counters count. -/
  | step
deriving DecidableEq

namespace TimerAccess

/-- The number of a port. -/
def portNumber (port : Fin 4) : Byte := BitVec.ofNat 8 (8 + port)

/-- The ports after an access. -/
def perform (io : Io (Option I8253)) : TimerAccess → Io (Option I8253)
  | .read port => (io.input (portNumber port)).2
  | .write port w8 => (io.realoutput .init (portNumber port) w8).io
  | .step => { io with chips := Chips.soundSteps io.chips 1 false 0 false }

/-- The access is no control word for the counter that is not there. -/
def Selects : TimerAccess → Prop
  | .write port w8 => port = 0 → w8 < 0xc0
  | _ => True

/-- A counter of the timer changes, so there is still a timer. -/
theorem isSome_update (timer : I8253) (index : Nat) (change : CounterUnit → CounterUnit) :
    (timer.update index change).isSome = true ↔ index < 3 := by
  unfold I8253.update
  split
  · rename_i inside
    exact iff_of_true rfl inside
  · rename_i outside
    exact iff_of_false Bool.false_ne_true outside

/-- The two high bits of a control word. -/
theorem counterSet_lt (w8 : Byte) : ((w8 >>> 6) &&& 3).toNat < 3 ↔ w8 < 0xc0 := by
  have bits : ((w8 >>> 6) &&& 3).toNat = w8.toNat / 64 := by
    have small := w8.isLt
    have mask : (3 : Nat) = 2 ^ 2 - 1 := rfl
    rw [BitVec.toNat_and, BitVec.toNat_ushiftRight, Nat.shiftRight_eq_div_pow]
    show w8.toNat / 2 ^ 6 &&& 3 = _
    rw [mask, Nat.and_two_pow_sub_one_eq_mod]
    omega
  rw [bits, BitVec.lt_def]
  show _ ↔ w8.toNat < 192
  omega

/-- Writing a port leaves the timer unless it is a control word for the counter that is not
there. -/
theorem isSome_write (timer : I8253) (addr : Nat) (small : addr < 4) (w8 : Byte) :
    (timer.write addr w8).isSome = true ↔ (addr = 3 → w8 < 0xc0) := by
  have cases' : addr = 0 ∨ addr = 1 ∨ addr = 2 ∨ addr = 3 := by omega
  rcases cases' with rfl | rfl | rfl | rfl
  · exact iff_of_true rfl (fun other => absurd other (by decide))
  · exact iff_of_true rfl (fun other => absurd other (by decide))
  · exact iff_of_true rfl (fun other => absurd other (by decide))
  · show (timer.writeCw w8).isSome = true ↔ _
    unfold I8253.writeCw
    rw [isSome_update, counterSet_lt]
    exact ⟨fun low _ => low, fun low => low rfl⟩

theorem isSome_read (timer : I8253) (addr : Nat) (small : addr < 4) :
    (timer.read addr).isSome = true := by
  have cases' : addr = 0 ∨ addr = 1 ∨ addr = 2 ∨ addr = 3 := by omega
  rcases cases' with rfl | rfl | rfl | rfl <;> rfl

/-- The register that a port of the timer selects. -/
theorem inverted_portNumber (port : Fin 4) : Io.inverted (portNumber port) = 3 - port := by
  revert port
  decide

/-- What a committed write does to the timer. -/
theorem perform_write {io : Io (Option I8253)} {timer : I8253} (there : io.chips = some timer)
    (port : Fin 4) (w8 : Byte) :
    (perform io (.write port w8)).chips = timer.write (3 - port) w8 := by
  rw [← inverted_portNumber]
  fin_cases port <;> simp [perform, Io.realoutput, portNumber, Chips.timerWrite, there]

/-- What a read does to the timer. -/
theorem perform_read {io : Io (Option I8253)} {timer : I8253} (there : io.chips = some timer)
    (port : Fin 4) :
    (perform io (.read port)).chips = (timer.read (3 - port)).map Prod.snd := by
  obtain ⟨answer, reads⟩ := Option.isSome_iff_exists.mp
    (isSome_read timer (Io.inverted (portNumber port)) (by rw [inverted_portNumber]; omega))
  rw [← inverted_portNumber, reads]
  fin_cases port <;> simp_all [perform, Io.input, portNumber, Io.inverted, Chips.timerRead]

/-- What a step of the sound does to the timer. -/
theorem perform_step {io : Io (Option I8253)} {timer : I8253} (there : io.chips = some timer) :
    (perform io .step).chips = some timer.count := by
  simp [perform, Chips.soundSteps, there]

/-- One access leaves the timer exactly when it selects a counter that is there. -/
theorem perform_isSome (io : Io (Option I8253)) (access : TimerAccess) :
    (perform io access).chips.isSome = true ↔ io.chips.isSome = true ∧ access.Selects := by
  cases there : io.chips with
  | none =>
    refine iff_of_false ?_ fun both => Bool.false_ne_true both.1
    cases access with
    | read port =>
      have none' : (perform io (.read port)).chips = none := by
        fin_cases port <;> simp [perform, Io.input, portNumber, Chips.timerRead, there]
      rw [none']
      exact Bool.false_ne_true
    | write port w8 =>
      have none' : (perform io (.write port w8)).chips = none := by
        fin_cases port <;> simp [perform, Io.realoutput, portNumber, Chips.timerWrite, there]
      rw [none']
      exact Bool.false_ne_true
    | step =>
      have none' : (perform io .step).chips = none := by
        simp [perform, Chips.soundSteps, there]
      rw [none']
      exact Bool.false_ne_true
  | some timer =>
    have present : (some timer).isSome = true := rfl
    rw [and_iff_right present]
    cases access with
    | read port =>
      rw [perform_read there, Option.isSome_map]
      exact iff_of_true (isSome_read timer _ (by omega)) trivial
    | write port w8 =>
      rw [perform_write there, isSome_write timer _ (by omega)]
      unfold Selects
      refine imp_congr_left ?_
      omega
    | step =>
      rw [perform_step there]
      exact iff_of_true rfl trivial

/-- The timer is left after accesses exactly when each of them selects a counter that is there. -/
theorem foldl_isSome (accesses : List TimerAccess) : ∀ io : Io (Option I8253),
    (accesses.foldl perform io).chips.isSome = true ↔
      io.chips.isSome = true ∧ ∀ access ∈ accesses, access.Selects := by
  induction accesses with
  | nil => simp
  | cons access accesses inductionHypothesis =>
    intro io
    rw [List.foldl_cons, inductionHypothesis, perform_isSome, List.forall_mem_cons, and_assoc]

/-- Whatever the guest does with the ports, every counter that is accessed is there, exactly when no
control word selects the fourth. -/
theorem counters_inside_iff (io : Io (Option I8253)) (timer : I8253)
    (accesses : List TimerAccess) :
    (accesses.foldl perform { io with chips := some timer }).chips.isSome = true ↔
      ∀ access ∈ accesses, access.Selects := by
  rw [foldl_isSome]
  exact and_iff_right rfl

/-- A control word of C0 selects the fourth counter. -/
theorem counters_outside : ¬ ∀ (io : Io (Option I8253)) (timer : I8253)
    (accesses : List TimerAccess),
      (accesses.foldl perform { io with chips := some timer }).chips.isSome = true := by
  intro inside
  have there := inside (.init none) .init [.write 0 0xc0]
  rw [foldl_isSome] at there
  exact absurd (there.2 _ List.mem_cons_self rfl) (by decide)

end TimerAccess

end VectorDebugger

import VectorDebugger.Machine.BeamTime
import VectorDebugger.Machine.Accesses

/-!
# Port writes

How a write travels from the output latch to a device. `IO::output` latches it; an `OUT` drives
the two commits of its own drawing, first that of the colour table and then that of the other
ports. Nothing else drives them, so a write latched by anyone but an `OUT` stays in the latch,
and a colour that comes through the regular commit waits for the next `OUT`.
-/

namespace VectorDebugger

/-- A write that has reached a device. -/
inductive DeviceWrite
  /-- A register behind a port. -/
  | port (port w8 : Byte)
  /-- The colour table. -/
  | colour (w8 : Byte)
deriving DecidableEq, Repr

/-- The ports of the colour table. -/
def PalettePort (port : Byte) : Prop := 0x0c ≤ port.toNat ∧ port.toNat ≤ 0x0f

instance (port : Byte) : Decidable (PalettePort port) := inferInstanceAs (Decidable (_ ∧ _))

/-- The device behind a port, and what a write to the port should do to it. -/
def deviceWrite (port w8 : Byte) : DeviceWrite :=
  if PalettePort port then .colour w8 else .port port w8

namespace Io

variable {δ : Type} [Chips δ]

/-- What `IO::commit` hands to a device: a colour is only kept for its own commit. -/
def commitWrites (io : Io δ) : List DeviceWrite :=
  match io.outport with
  | none => []
  | some (port, w8) => if PalettePort port then [] else [.port port w8]

/-- What `IO::commit_palette` hands to the colour table. -/
def commitPaletteWrites (io : Io δ) : List DeviceWrite :=
  io.commitPalette.1.toList.map .colour

/-- A colour waits in `palettebyte`; any other write leaves that byte alone. -/
theorem realoutput_palettebyte (io : Io δ) (memory : Memory) (port w8 : Byte) :
    (io.realoutput memory port w8).io.palettebyte =
      if PalettePort port then some w8 else io.palettebyte := by
  by_cases colour : PalettePort port
  · have low : 0x0c ≤ port.toNat := colour.1
    have high : port.toNat ≤ 0x0f := colour.2
    have four : port.toNat = 0x0c ∨ port.toNat = 0x0d ∨ port.toNat = 0x0e ∨ port.toNat = 0x0f := by
      omega
    rw [if_pos colour]
    unfold realoutput
    rcases four with same | same | same | same <;> (rw [same]; rfl)
  · have away : ¬ (0x0c ≤ port.toNat ∧ port.toNat ≤ 0x0f) := colour
    rw [if_neg colour]
    unfold realoutput
    dsimp only
    split
    · split <;> rfl
    all_goals first | rfl | omega

/-- The latch and the waiting colour after a commit. -/
theorem commit_latch (io : Io δ) (memory : Memory) :
    (io.commit memory).io.outport = none ∧
      (io.commit memory).io.palettebyte =
        match io.outport with
        | none => io.palettebyte
        | some (port, w8) => if PalettePort port then some w8 else io.palettebyte := by
  unfold commit
  cases latch : io.outport with
  | none => exact ⟨latch, rfl⟩
  | some write => exact ⟨rfl, io.realoutput_palettebyte memory write.1 write.2⟩

omit [Chips δ] in
/-- The colour table's commit takes the colour that waits. -/
theorem commitPalette_waiting {io : Io δ} {w8 : Byte} (waiting : io.palettebyte = some w8) :
    io.commitPalette = (some w8, { io with palettebyte := none }) := by
  unfold commitPalette
  rw [waiting]

omit [Chips δ] in
/-- When none waits it takes a write to port `0Ch` from the latch. -/
theorem commitPalette_latched {io : Io δ} {w8 : Byte} (idle : io.palettebyte = none)
    (latched : io.outport = some (0x0c, w8)) :
    io.commitPalette = (some w8, { io with outport := none, palettebyte := none }) := by
  unfold commitPalette
  rw [idle, latched]
  rfl

omit [Chips δ] in
/-- It takes nothing else. -/
theorem commitPalette_other {io : Io δ} (idle : io.palettebyte = none)
    (other : ∀ w8, io.outport ≠ some (0x0c, w8)) : io.commitPalette = (none, io) := by
  unfold commitPalette
  rw [idle]
  split
  · rename_i waiting
    cases waiting
  · rename_i w8 _ latched
    exact absurd latched (other w8)
  · rfl

end Io

namespace Screen

variable {δ : Type} [Chips δ]

/-- What the two commits of one clock hand to devices. -/
def commitsWrites (screen : Screen δ) (commitTime commitTimePal : Int) (clk : Nat) :
    List DeviceWrite :=
  let committed := if (clk : Int) = commitTime then screen.commit else screen
  (if (clk : Int) = commitTime then screen.io.commitWrites else []) ++
    if (clk : Int) = commitTimePal then committed.io.commitPaletteWrites else []

/-- What the passes of `PixelFiller::fill1` hand to devices. -/
def clocksWrites (updateScreen : Bool) (commitTime commitTimePal : Int) :
    Nat → Nat → Screen δ → List DeviceWrite
  | 0, _, _ => []
  | passes + 1, clk, screen =>
    screen.commitsWrites commitTime commitTimePal clk ++
      clocksWrites updateScreen commitTime commitTimePal passes (clk + 2)
        (screen.clock updateScreen commitTime commitTimePal clk).2

/-- What `PixelFiller::fill1` hands to devices. -/
def fill1Writes (screen : Screen δ) (clocks : Nat) (commitTime commitTimePal : Int)
    (updateScreen : Bool) : List DeviceWrite :=
  let passes := (clocks + 1) / 2
  let drawn := Screen.clocks updateScreen commitTime commitTimePal passes 0 0 screen
  clocksWrites updateScreen commitTime commitTimePal passes 0 screen ++
    drawn.2.1.commitsWrites commitTime commitTimePal (2 * passes)

/-- Same ports, memory and colours. -/
structure SameDevices (after screen : Screen δ) : Prop where
  /-- Same ports. -/
  io : after.io = screen.io
  /-- Same memory. -/
  memory : after.memory = screen.memory
  /-- Same colours. -/
  palette : after.palette = screen.palette

/-- A pass does to the devices what its commits do, with the index it shifts out. -/
theorem clock_devices (screen : Screen δ) (updateScreen : Bool) (commitTime commitTimePal : Int)
    (clk : Nat) :
    ((screen.clock updateScreen commitTime commitTimePal clk).2).SameDevices
      (screen.commits commitTime commitTimePal clk
        (screen.clock updateScreen commitTime commitTimePal clk).1) := by
  have advanced : ∀ moved : Screen δ, (moved.advance updateScreen clk).SameDevices moved := by
    intro moved
    unfold advance
    dsimp only
    split
    · exact ⟨rfl, rfl, rfl⟩
    · split <;> exact ⟨rfl, rfl, rfl⟩
  have indexed : ∀ (picture : Picture) (index : Nat),
      (({ screen with picture } : Screen δ).commits commitTime commitTimePal clk index).SameDevices
        (screen.commits commitTime commitTimePal clk index) := by
    intro picture index
    unfold commits
    dsimp only
    split <;> split <;> exact ⟨rfl, rfl, rfl⟩
  have same := indexed
    (screen.picture.getColorIndex screen.memory (screen.beam.rasterPixel - 24)
      (screen.picture.overBorder (screen.beam.rasterPixel - 24))).2
    (screen.clock updateScreen commitTime commitTimePal clk).1
  unfold clock
  dsimp only
  constructor
  · exact (advanced _).io.trans same.io
  · exact (advanced _).memory.trans same.memory
  · exact (advanced _).palette.trans same.palette

omit [Chips δ] in
theorem SameDevices.trans {after middle screen : Screen δ} (second : after.SameDevices middle)
    (first : middle.SameDevices screen) : after.SameDevices screen :=
  ⟨second.io.trans first.io, second.memory.trans first.memory, second.palette.trans first.palette⟩

/-- Passes with no commit among them leave the devices alone. -/
theorem clocks_quiet (updateScreen : Bool) (commitTime commitTimePal : Int) (passes : Nat) :
    ∀ (clk index : Nat) (screen : Screen δ),
      (∀ i < passes, ((clk + 2 * i : Nat) : Int) ≠ commitTime ∧
        ((clk + 2 * i : Nat) : Int) ≠ commitTimePal) →
      ((clocks updateScreen commitTime commitTimePal passes clk index screen).2.1).SameDevices
          screen ∧
        clocksWrites updateScreen commitTime commitTimePal passes clk screen = [] := by
  induction passes with
  | zero => exact fun clk index screen quiet => ⟨⟨rfl, rfl, rfl⟩, rfl⟩
  | succ passes inductionHypothesis =>
    intro clk index screen quiet
    obtain ⟨notCommit, notPalette⟩ := quiet 0 (by omega)
    rw [Nat.mul_zero, Nat.add_zero] at notCommit notPalette
    have first := screen.clock_devices updateScreen commitTime commitTimePal clk
    have uncommitted : ∀ index,
        screen.commits commitTime commitTimePal clk index = screen := by
      intro index
      unfold commits
      rw [if_neg notCommit, if_neg notPalette]
    have unwritten : screen.commitsWrites commitTime commitTimePal clk = [] := by
      unfold commitsWrites
      dsimp only
      rw [if_neg notCommit, if_neg notPalette]
      rfl
    rw [uncommitted] at first
    obtain ⟨rest, writes⟩ := inductionHypothesis (clk + 2)
      (screen.clock updateScreen commitTime commitTimePal clk).1
      (screen.clock updateScreen commitTime commitTimePal clk).2 (by
        intro i below
        have later := quiet (i + 1) (by omega)
        rw [show clk + 2 * (i + 1) = clk + 2 + 2 * i by omega] at later
        exact later)
    refine ⟨rest.trans first, ?_⟩
    unfold clocksWrites
    rw [unwritten, writes]
    rfl

/-- Passes in a row. -/
theorem clocks_add (updateScreen : Bool) (commitTime commitTimePal : Int) (front back : Nat) :
    ∀ (clk index : Nat) (screen : Screen δ),
      let middle := clocks updateScreen commitTime commitTimePal front clk index screen
      (clocks updateScreen commitTime commitTimePal (front + back) clk index screen).1 =
          (clocks updateScreen commitTime commitTimePal back (clk + 2 * front) middle.1
            middle.2.1).1 ∧
        (clocks updateScreen commitTime commitTimePal (front + back) clk index screen).2.1 =
          (clocks updateScreen commitTime commitTimePal back (clk + 2 * front) middle.1
            middle.2.1).2.1 ∧
        clocksWrites updateScreen commitTime commitTimePal (front + back) clk screen =
          clocksWrites updateScreen commitTime commitTimePal front clk screen ++
            clocksWrites updateScreen commitTime commitTimePal back (clk + 2 * front)
              middle.2.1 := by
  induction front with
  | zero =>
    intro clk index screen
    rw [Nat.zero_add, Nat.mul_zero, Nat.add_zero]
    exact ⟨rfl, rfl, rfl⟩
  | succ front inductionHypothesis =>
    intro clk index screen
    obtain ⟨last, moved, writes⟩ := inductionHypothesis (clk + 2)
      (screen.clock updateScreen commitTime commitTimePal clk).1
      (screen.clock updateScreen commitTime commitTimePal clk).2
    rw [show front + 1 + back = front + back + 1 by omega,
      show clk + 2 * (front + 1) = clk + 2 + 2 * front by omega]
    exact ⟨last, moved,
      (congrArg (screen.commitsWrites commitTime commitTimePal clk ++ ·) writes).trans
        (List.append_assoc _ _ _).symm⟩

/-- A pass that may commit, before others that do not. -/
theorem clocks_first (updateScreen : Bool) (commitTime commitTimePal : Int) (passes clk index : Nat)
    (screen : Screen δ)
    (quiet : ∀ i < passes, ((clk + 2 + 2 * i : Nat) : Int) ≠ commitTime ∧
      ((clk + 2 + 2 * i : Nat) : Int) ≠ commitTimePal) :
    ((clocks updateScreen commitTime commitTimePal (passes + 1) clk index screen).2.1).SameDevices
        (screen.commits commitTime commitTimePal clk
          (screen.clock updateScreen commitTime commitTimePal clk).1) ∧
      clocksWrites updateScreen commitTime commitTimePal (passes + 1) clk screen =
        screen.commitsWrites commitTime commitTimePal clk := by
  obtain ⟨rest, writes⟩ := clocks_quiet updateScreen commitTime commitTimePal passes (clk + 2)
    (screen.clock updateScreen commitTime commitTimePal clk).1
    (screen.clock updateScreen commitTime commitTimePal clk).2 quiet
  refine ⟨rest.trans (screen.clock_devices updateScreen commitTime commitTimePal clk), ?_⟩
  unfold clocksWrites
  rw [writes, List.append_nil]

theorem SameDevices.commit {after screen : Screen δ} (same : after.SameDevices screen) :
    after.commit.SameDevices screen.commit := by
  obtain ⟨io, memory, palette⟩ := same
  constructor
  · exact congrArg₂ (fun io memory => (Io.commit io memory).io) io memory
  · exact congrArg₂ (fun io memory => (Io.commit io memory).memory) io memory
  · exact palette

theorem SameDevices.commitPalette {after screen : Screen δ} (same : after.SameDevices screen)
    (index : Nat) : (after.commitPalette index).SameDevices (screen.commitPalette index) := by
  obtain ⟨io, memory, palette⟩ := same
  unfold Screen.commitPalette
  dsimp only
  rw [io, palette]
  exact ⟨rfl, memory, rfl⟩

/-- The colour index that is shifted out at clock `2 * passes`, when nothing is committed before
it. -/
def indexAt (screen : Screen δ) (updateScreen : Bool) (commitTime commitTimePal : Int)
    (passes : Nat) : Nat :=
  ((clocks updateScreen commitTime commitTimePal passes 0 0 screen).2.1.clock updateScreen
    commitTime commitTimePal (2 * passes)).1

/-- Passes that commit a colour after `front` passes and the latch `between` passes later. -/
theorem clocks_twice (screen : Screen δ) (updateScreen : Bool) {commitTime commitTimePal : Int}
    (front between back : Nat) (colourTime : ((2 * front : Nat) : Int) = commitTimePal)
    (latchTime : ((2 * front + 2 * (between + 1) : Nat) : Int) = commitTime) :
    let index := screen.indexAt updateScreen commitTime commitTimePal front
    ((clocks updateScreen commitTime commitTimePal (front + (between + 1 + (back + 1))) 0 0
        screen).2.1).SameDevices (screen.commitPalette index).commit ∧
      clocksWrites updateScreen commitTime commitTimePal (front + (between + 1 + (back + 1))) 0
          screen =
        screen.io.commitPaletteWrites ++ (screen.commitPalette index).io.commitWrites := by
  intro index
  obtain ⟨-, drawn, writes⟩ := clocks_add updateScreen commitTime commitTimePal front
    (between + 1 + (back + 1)) 0 0 screen
  obtain ⟨first, firstWrites⟩ := clocks_quiet updateScreen commitTime commitTimePal front 0 0 screen
    (fun i below => by omega)
  have shifted : index = ((clocks updateScreen commitTime commitTimePal front 0 0
      screen).2.1.clock updateScreen commitTime commitTimePal (2 * front)).1 := rfl
  rw [Nat.zero_add] at drawn writes
  rw [drawn, writes, firstWrites, List.nil_append, shifted]
  generalize clocks updateScreen commitTime commitTimePal front 0 0 screen = reached at first
  obtain ⟨-, drawn, writes⟩ := clocks_add updateScreen commitTime commitTimePal (between + 1)
    (back + 1) (2 * front) reached.1 reached.2.1
  obtain ⟨second, secondWrites⟩ := clocks_first updateScreen commitTime commitTimePal between
    (2 * front) reached.1 reached.2.1 (fun i below => by omega)
  rw [drawn, writes, secondWrites]
  have colour : reached.2.1.commits commitTime commitTimePal (2 * front)
      (reached.2.1.clock updateScreen commitTime commitTimePal (2 * front)).1 =
        reached.2.1.commitPalette
          (reached.2.1.clock updateScreen commitTime commitTimePal (2 * front)).1 := by
    have notLatch : ((2 * front : Nat) : Int) ≠ commitTime := by omega
    unfold commits
    rw [if_neg notLatch, if_pos colourTime]
  have colourWrites : reached.2.1.commitsWrites commitTime commitTimePal (2 * front) =
      reached.2.1.io.commitPaletteWrites := by
    have notLatch : ((2 * front : Nat) : Int) ≠ commitTime := by omega
    unfold commitsWrites
    dsimp only
    rw [if_neg notLatch, if_neg notLatch, if_pos colourTime, List.nil_append]
  rw [colour] at second
  rw [colourWrites, first.io]
  generalize
    (reached.2.1.clock updateScreen commitTime commitTimePal (2 * front)).1 = shown at second
  have colours := second.trans (first.commitPalette shown)
  generalize clocks updateScreen commitTime commitTimePal (between + 1) (2 * front) reached.1
    reached.2.1 = held at colours
  obtain ⟨third, thirdWrites⟩ := clocks_first updateScreen commitTime commitTimePal back
    (2 * front + 2 * (between + 1)) held.1 held.2.1 (fun i below => by omega)
  have notColour : ((2 * front + 2 * (between + 1) : Nat) : Int) ≠ commitTimePal := by omega
  have latch : held.2.1.commits commitTime commitTimePal (2 * front + 2 * (between + 1))
      (held.2.1.clock updateScreen commitTime commitTimePal (2 * front + 2 * (between + 1))).1 =
        held.2.1.commit := by
    unfold commits
    dsimp only
    rw [if_neg notColour, if_pos latchTime]
  have latchWrites : held.2.1.commitsWrites commitTime commitTimePal
      (2 * front + 2 * (between + 1)) = held.2.1.io.commitWrites := by
    unfold commitsWrites
    dsimp only
    rw [if_neg notColour, if_pos latchTime, List.append_nil]
  rw [latch] at third
  refine ⟨third.trans colours.commit, ?_⟩
  rw [thirdWrites, latchWrites, colours.io]

/-- The drawing of an `OUT` that waits `cycles` commits a colour first, at the index shifted out
at that clock, and the latch after it. -/
theorem fill1_out (screen : Screen δ) (updateScreen : Bool) (cycles : Nat)
    (long : 12 ≤ cycles) :
    let commitTime : Int := ((cycles : Int) - 4) * 4
    let index := screen.indexAt updateScreen commitTime (commitTime - 20) (2 * cycles - 18)
    ((screen.fill1 (cycles * 4) commitTime (commitTime - 20) updateScreen).1).SameDevices
        (screen.commitPalette index).commit ∧
      screen.fill1Writes (cycles * 4) commitTime (commitTime - 20) updateScreen =
        screen.io.commitPaletteWrites ++ (screen.commitPalette index).io.commitWrites := by
  intro commitTime index
  have time : commitTime = 4 * cycles - 16 := by omega
  have passes : (cycles * 4 + 1) / 2 = 2 * cycles - 18 + (9 + 1 + (7 + 1)) := by omega
  obtain ⟨same, writes⟩ := screen.clocks_twice updateScreen (2 * cycles - 18) 9 7
    (show ((2 * (2 * cycles - 18) : Nat) : Int) = commitTime - 20 by omega)
    (show ((2 * (2 * cycles - 18) + 2 * (9 + 1) : Nat) : Int) = commitTime by omega)
  have notLatch : ((2 * (2 * cycles - 18 + (9 + 1 + (7 + 1))) : Nat) : Int) ≠ commitTime := by omega
  have notColour : ((2 * (2 * cycles - 18 + (9 + 1 + (7 + 1))) : Nat) : Int) ≠ commitTime - 20 := by
    omega
  unfold fill1 fill1Writes
  dsimp only
  rw [passes, writes]
  generalize clocks updateScreen commitTime (commitTime - 20)
    (2 * cycles - 18 + (9 + 1 + (7 + 1))) 0 0 screen = drawn at same
  constructor
  · unfold commits
    rw [if_neg notLatch, if_neg notColour]
    exact same
  · unfold commitsWrites
    dsimp only
    rw [if_neg notLatch, if_neg notColour]
    exact List.append_nil _

/-- The drawing of any other instruction commits nothing. -/
theorem fill1_other (screen : Screen δ) (updateScreen : Bool) (total : Nat) :
    ((screen.fill1 total (-1) (-1) updateScreen).1).SameDevices screen ∧
      screen.fill1Writes total (-1) (-1) updateScreen = [] := by
  have never : ∀ clk : Nat, ((clk : Nat) : Int) ≠ -1 := fun clk => by omega
  obtain ⟨same, writes⟩ := clocks_quiet updateScreen (-1) (-1) ((total + 1) / 2) 0 0 screen
    (fun i below => ⟨never _, never _⟩)
  unfold fill1 fill1Writes
  dsimp only
  rw [writes]
  generalize clocks updateScreen (-1) (-1) ((total + 1) / 2) 0 0 screen = drawn at same
  constructor
  · unfold commits
    rw [if_neg (never _), if_neg (never _)]
    exact same
  · unfold commitsWrites
    dsimp only
    rw [if_neg (never _), if_neg (never _)]
    rfl

end Screen

/-- The write of a callback of `i8080_hal_io_output`, if it is one. -/
def BusEvent.latched : BusEvent → Option (Byte × Byte)
  | .output port w8 => some (port, w8)
  | .read .. | .write .. | .input .. => none

/-- The writes that callbacks report, in order. -/
def latches (events : List BusEvent) : List (Byte × Byte) := events.filterMap BusEvent.latched

@[simp] theorem latches_append (front back : List BusEvent) :
    latches (front ++ back) = latches front ++ latches back := List.filterMap_append

@[simp] theorem latches_nil : latches [] = [] := rfl

@[simp] theorem latches_read (virt phys : Nat) (stack fetch : Bool) (value : Byte) (pc : Word)
    (events : List BusEvent) :
    latches (.read virt phys stack fetch value pc :: events) = latches events := rfl

@[simp] theorem latches_write (virt phys : Nat) (stack : Bool) (value : Byte) (pc : Word)
    (events : List BusEvent) :
    latches (.write virt phys stack value pc :: events) = latches events := rfl

@[simp] theorem latches_input (port value : Byte) (events : List BusEvent) :
    latches (.input port value :: events) = latches events := rfl

@[simp] theorem latches_output (port value : Byte) (events : List BusEvent) :
    latches (.output port value :: events) = (port, value) :: latches events := rfl

namespace Bus

variable {δ : Type} [Chips δ]

/-- Reading a port leaves the latch and the waiting colour alone. -/
theorem input_latch (io : Io δ) (port : Byte) :
    (io.input port).2.outport = io.outport ∧ (io.input port).2.palettebyte = io.palettebyte := by
  unfold Io.input
  split <;> exact ⟨rfl, rfl⟩

/-- Only an `OUT` writes the latch. -/
theorem exec_latch (bus : Bus δ) {instr : Instr} (other : instr ≠ .outPort) :
    (bus.exec instr).io.outport = bus.io.outport ∧
      (bus.exec instr).io.palettebyte = bus.io.palettebyte ∧
      latches (bus.exec instr).events = latches bus.events := by
  cases instr with
  | outPort => exact absurd rfl other
  | inPort =>
    obtain ⟨outport, palettebyte⟩ := input_latch bus.io bus.fetchByte.1
    exact ⟨outport, palettebyte, by simp [exec, fetchByte, readAt, ioInput, setCpu]⟩
  | rcc cc | jcc cc | ccc cc =>
    unfold exec
    dsimp only
    split <;>
      simp [setCpu, readAt, readWordAt, writeAt, writeWordAt, fetchWord, skipWord, jump, push,
        pop, call]
  | _ =>
    simp [exec, setCpu, readAt, readWordAt, writeAt, writeWordAt, rdByte, rdWord, fetchByte,
      fetchWord, wrByte, wrWord, skipWord, jump, push, pop, call, interrupt]

end Bus

namespace Machine

variable {δ : Type} [Chips δ]

/-- The port and the value of an `OUT` at the program counter. -/
def outWrite (machine : Machine δ) : Byte × Byte :=
  ((machine.memory.read (machine.cpu.pc + 1).toNat false).1, machine.cpu.a)

/-- What the latch holds after the instruction itself, and what it reported. -/
theorem next_latch (machine : Machine δ) :
    machine.next.io.palettebyte = machine.io.palettebyte ∧
      machine.next.io.outport =
        (if machine.opcode = 0xd3 then some machine.outWrite else machine.io.outport) ∧
      latches machine.events = if machine.opcode = 0xd3 then [machine.outWrite] else [] := by
  have io := machine.next_executed.2.2
  rw [io, machine.events_countdown, Bus.countdown_events]
  by_cases out : machine.opcode = 0xd3
  · have decoded : decode 0xd3 = .outPort := by decide
    rw [if_pos out, if_pos out]
    unfold executed
    rw [out, decoded]
    exact ⟨rfl, rfl, rfl⟩
  · have decoded : ∀ opcode : Byte, opcode ≠ 0xd3 → decode opcode ≠ .outPort :=
      @forall_decode (fun opcode instr => opcode ≠ 0xd3 → instr ≠ .outPort) (by decide +kernel)
    obtain ⟨outport, palettebyte, reported⟩ :=
      machine.bus.fetchByte.2.exec_latch (decoded machine.opcode out)
    rw [if_neg out, if_neg out]
    exact ⟨palettebyte, outport, reported⟩

end Machine

/-- What happens to the writes of a run. -/
inductive PortEvent
  /-- `IO::output` latched a write. -/
  | latched (port w8 : Byte)
  /-- A write reached its device. -/
  | applied (write : DeviceWrite)
deriving DecidableEq, Repr

namespace Board

variable {δ : Type} [Chips δ]

/-- What the filler works on when it draws the next instruction. -/
def ready (board : Board δ) : Screen δ where
  beam := board.beam
  picture := board.picture
  palette := board.palette
  io := board.machine.next.io
  memory := board.machine.next.memory

/-- The drawing of the next instruction. -/
def picturing (board : Board δ) (updateScreen : Bool) : Screen δ × Nat :=
  board.ready.fill1 (board.pendingCycles * 4)
    (commitTime board.machine.opcode board.pendingCycles)
    (commitTimePal board.machine.opcode board.pendingCycles) updateScreen

/-- What the drawing of the next instruction hands to devices. -/
def deviceWrites (board : Board δ) (updateScreen : Bool) : List DeviceWrite :=
  board.ready.fill1Writes (board.pendingCycles * 4)
    (commitTime board.machine.opcode board.pendingCycles)
    (commitTimePal board.machine.opcode board.pendingCycles) updateScreen

/-- What `single_step` does to the writes: the instruction latches, the drawing commits. -/
def portEvents (board : Board δ) (updateScreen : Bool) : List PortEvent :=
  (latches board.machine.events).map (fun write => .latched write.1 write.2) ++
    (board.deviceWrites updateScreen).map .applied

/-- What follows the instruction leaves what was drawn, and the chips run on. -/
theorem filled_pictured (board : Board δ) (updateScreen : Bool) :
    let drawn := board.screen.fill1 (board.instrTime * 4)
      (commitTime board.lastOpcode board.instrTime)
      (commitTimePal board.lastOpcode board.instrTime) updateScreen
    let filled := board.fill updateScreen
    let done := filled.1.interruptLogic.runChips.carryLeftover filled.2
    done.picture = drawn.1.picture ∧ done.palette = drawn.1.palette ∧
      done.machine.io = chipsAfter drawn.1.io (board.frameNo > 60) board.instrTime :=
  ⟨rfl, rfl, rfl⟩

/-- What `single_step` leaves of the picture, the colours and the ports. -/
theorem singleStep_pictured (board : Board δ) (updateScreen : Bool) :
    (board.singleStep updateScreen).picture = (board.picturing updateScreen).1.picture ∧
      (board.singleStep updateScreen).palette = (board.picturing updateScreen).1.palette ∧
      (board.singleStep updateScreen).machine.io =
        chipsAfter (board.picturing updateScreen).1.io (board.frameNo > 60)
          board.pendingCycles := by
  obtain ⟨between, instrTime, folded⟩ := board.foldLeftover_eq
  have pending : board.pendingCycles = instrTime + board.videoCycles := by
    unfold pendingCycles
    rw [folded]
  obtain ⟨next, nextEq⟩ : ∃ next, next = board.machine.next := ⟨_, rfl⟩
  obtain ⟨time, timeEq⟩ : ∃ time, time = board.pendingCycles := ⟨_, rfl⟩
  have started : ({ board with between, instrTime } : Board δ).runInstruction =
      { board with
        machine := next, lastOpcode := board.machine.opcode, between, instrTime := time } := by
    rw [timeEq, pending, nextEq]
    rfl
  unfold singleStep picturing ready
  dsimp only
  rw [folded, started, ← nextEq, ← timeEq]
  exact filled_pictured _ updateScreen

/-- The chips do not touch the latch and the waiting colour. -/
theorem singleStep_latch (board : Board δ) (updateScreen : Bool) :
    (board.singleStep updateScreen).machine.io.outport =
        (board.picturing updateScreen).1.io.outport ∧
      (board.singleStep updateScreen).machine.io.palettebyte =
        (board.picturing updateScreen).1.io.palettebyte := by
  rw [(board.singleStep_pictured updateScreen).2.2]
  unfold chipsAfter
  dsimp only
  split <;> exact ⟨rfl, rfl⟩

/-- An `OUT` takes twelve cycles. -/
theorem twelve_le_pendingCycles (board : Board δ) (out : board.machine.opcode = 0xd3) :
    12 ≤ board.pendingCycles := by
  have cycles : board.videoCycles = 12 := by
    have timed : board.videoCycles =
        ((decode board.machine.opcode).cycles board.machine.bus.fetchByte.2.cpu.flags).2 := rfl
    rw [timed, out]
    rfl
  unfold pendingCycles
  omega

/-- The index of the colour that the beam shows when an `OUT` commits a colour. -/
def paletteIndex (board : Board δ) (updateScreen : Bool) : Nat :=
  board.ready.indexAt updateScreen (commitTime 0xd3 board.pendingCycles)
    (commitTimePal 0xd3 board.pendingCycles) (2 * board.pendingCycles - 18)

/-- An `OUT` latches its write, commits a colour and then the latch. -/
theorem singleStep_out (board : Board δ) (updateScreen : Bool)
    (out : board.machine.opcode = 0xd3) :
    ((board.picturing updateScreen).1).SameDevices
        (board.ready.commitPalette (board.paletteIndex updateScreen)).commit ∧
      board.portEvents updateScreen =
        .latched board.machine.outWrite.1 board.machine.outWrite.2 ::
          (board.ready.io.commitPaletteWrites ++
            (board.ready.commitPalette (board.paletteIndex updateScreen)).io.commitWrites).map
              .applied := by
  have drawn := board.ready.fill1_out updateScreen board.pendingCycles
    (board.twelve_le_pendingCycles out)
  have reported := board.machine.next_latch.2.2
  rw [if_pos out] at reported
  unfold picturing portEvents deviceWrites
  rw [out, reported]
  exact ⟨drawn.1, congrArg (fun writes => PortEvent.latched board.machine.outWrite.1
    board.machine.outWrite.2 :: List.map PortEvent.applied writes) drawn.2⟩

/-- Any other instruction latches and commits nothing. -/
theorem singleStep_other (board : Board δ) (updateScreen : Bool)
    (other : board.machine.opcode ≠ 0xd3) :
    ((board.picturing updateScreen).1).SameDevices board.ready ∧
      board.portEvents updateScreen = [] := by
  have reported := board.machine.next_latch.2.2
  rw [if_neg other] at reported
  have never : commitTime board.machine.opcode board.pendingCycles = -1 := if_neg other
  have neverColour : commitTimePal board.machine.opcode board.pendingCycles = -1 := if_neg other
  unfold picturing portEvents deviceWrites
  rw [never, neverColour, reported]
  obtain ⟨same, writes⟩ := board.ready.fill1_other updateScreen (board.pendingCycles * 4)
  rw [writes]
  exact ⟨same, rfl⟩

/-- Nothing waits in the latch or for the colour table. -/
structure Clear (board : Board δ) : Prop where
  /-- The latch is empty. -/
  outport : board.machine.io.outport = none
  /-- No colour waits. -/
  palettebyte : board.machine.io.palettebyte = none

end Board

/-- The ports whose colour waits for the next `OUT`. -/
def DelayedPort (port : Byte) : Prop := PalettePort port ∧ port ≠ 0x0c

instance (port : Byte) : Decidable (DelayedPort port) := inferInstanceAs (Decidable (_ ∧ _))

namespace Io

variable {δ : Type} [Chips δ]

/-- The two commits of an `OUT`, when no colour waits: the write reaches its device, unless it is
a colour for one of the delayed ports. -/
theorem commits_latched {io : Io δ} (memory : Memory) {port w8 : Byte}
    (idle : io.palettebyte = none) (latched : io.outport = some (port, w8)) :
    let done := io.commitPalette
    let after := (done.2.commit memory).io
    after.outport = none ∧
      after.palettebyte = (if DelayedPort port then some w8 else none) ∧
      io.commitPaletteWrites ++ done.2.commitWrites =
        if DelayedPort port then [] else [deviceWrite port w8] := by
  intro done after
  by_cases first : port = 0x0c
  · subst first
    have taken : done = (some w8, { io with outport := none, palettebyte := none }) :=
      commitPalette_latched idle latched
    have direct : ¬ DelayedPort 0x0c := by decide
    have emptied := (done.2.commit_latch memory).1
    have kept := (done.2.commit_latch memory).2
    have writes : io.commitPaletteWrites = [.colour w8] := by
      unfold commitPaletteWrites
      rw [show io.commitPalette = done from rfl, taken]
      rfl
    rw [if_neg direct, if_neg direct, writes]
    refine ⟨emptied, ?_, ?_⟩
    · change (done.2.commit memory).io.palettebyte = none
      rw [kept, taken]
    · rw [taken]
      rfl
  · have other : ∀ w8, io.outport ≠ some (0x0c, w8) := by
      intro w8 same
      rw [latched] at same
      simp only [Option.some.injEq, Prod.mk.injEq] at same
      exact first same.1
    have taken : done = (none, io) := commitPalette_other idle other
    have emptied := (done.2.commit_latch memory).1
    have kept := (done.2.commit_latch memory).2
    have writes : io.commitPaletteWrites = [] := by
      unfold commitPaletteWrites
      rw [show io.commitPalette = done from rfl, taken]
      rfl
    have same : DelayedPort port ↔ PalettePort port := and_iff_left first
    rw [writes, List.nil_append]
    refine ⟨emptied, ?_, ?_⟩
    · change (done.2.commit memory).io.palettebyte = _
      rw [kept, taken, latched, idle]
      exact if_congr same.symm rfl rfl
    · unfold commitWrites deviceWrite
      rw [taken, latched]
      by_cases colour : PalettePort port
      · rw [if_pos (same.mpr colour)]
        exact if_pos colour
      · rw [if_neg (fun delayed => colour (same.mp delayed)), if_neg colour]
        exact if_neg colour

end Io

namespace Screen

variable {δ : Type} [Chips δ]

/-- The commit of a colour, seen from the ports. -/
theorem commitPalette_io (screen : Screen δ) (index : Nat) :
    (screen.commitPalette index).io = screen.io.commitPalette.2 := rfl

/-- Both commits, seen from the ports. -/
theorem commits_io (screen : Screen δ) (index : Nat) :
    (screen.commitPalette index).commit.io =
      (screen.io.commitPalette.2.commit screen.memory).io := rfl

end Screen

namespace Board

variable {δ : Type} [Chips δ]

/-- An `OUT` with no colour waiting. -/
theorem out_of_idle (board : Board δ) (updateScreen : Bool) (out : board.machine.opcode = 0xd3)
    (idle : board.machine.io.palettebyte = none) :
    (board.singleStep updateScreen).machine.io.outport = none ∧
      (board.singleStep updateScreen).machine.io.palettebyte =
        (if DelayedPort board.machine.outWrite.1 then some board.machine.outWrite.2 else none) ∧
      board.portEvents updateScreen =
        .latched board.machine.outWrite.1 board.machine.outWrite.2 ::
          if DelayedPort board.machine.outWrite.1 then []
          else [.applied (deviceWrite board.machine.outWrite.1 board.machine.outWrite.2)] := by
  obtain ⟨waiting, latched, -⟩ := board.machine.next_latch
  rw [if_pos out] at latched
  obtain ⟨outport, palettebyte⟩ := board.singleStep_latch updateScreen
  obtain ⟨same, events⟩ := board.singleStep_out updateScreen out
  have idleNext : board.ready.io.palettebyte = none := waiting.trans idle
  have latchedNext : board.ready.io.outport =
      some (board.machine.outWrite.1, board.machine.outWrite.2) := latched
  obtain ⟨emptied, kept, writes⟩ := Io.commits_latched board.ready.memory idleNext latchedNext
  rw [outport, palettebyte, same.io, Screen.commits_io, events, Screen.commitPalette_io]
  refine ⟨emptied, kept, ?_⟩
  rw [writes]
  split <;> rfl

/-- Any other instruction leaves the latch and the waiting colour alone. -/
theorem latch_of_other (board : Board δ) (updateScreen : Bool)
    (other : board.machine.opcode ≠ 0xd3) :
    (board.singleStep updateScreen).machine.io.outport = board.machine.io.outport ∧
      (board.singleStep updateScreen).machine.io.palettebyte = board.machine.io.palettebyte := by
  obtain ⟨waiting, latched, -⟩ := board.machine.next_latch
  rw [if_neg other] at latched
  obtain ⟨outport, palettebyte⟩ := board.singleStep_latch updateScreen
  obtain ⟨same, -⟩ := board.singleStep_other updateScreen other
  rw [outport, palettebyte, same.io]
  exact ⟨latched, waiting⟩

end Board

end VectorDebugger

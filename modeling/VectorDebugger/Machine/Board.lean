import VectorDebugger.Machine.Instruction
import VectorDebugger.Machine.Filler

/-!
# The board

`Board` runs the processor against the beam. `single_step` executes one instruction and
draws for as long as it took; `execute_frame` repeats it until the beam reaches the end of
the frame, accepting interrupts and looking for breakpoints before each instruction. Clocks
that an instruction spends after the end of the frame are carried into the next one through
`instr_time` and `between`.

`poll_debugger`, which `execute_frame` calls first, belongs to the debugger and is run by
the caller; `executeFrame` starts after it.
-/

namespace VectorDebugger

/-- `struct Breakpoint`. -/
structure Breakpoint where
  /-- Address. -/
  addr : Nat
  /-- Size in bytes, 1 for those the board checks. -/
  kind : Nat
deriving DecidableEq, Repr

/-- `Board::ResetMode`. -/
inductive ResetMode
  | blksbr | blkvvod | loadrom
deriving DecidableEq, Repr

/-- `Board`, with the filler it drives. -/
structure Board (δ : Type) where
  /-- Processor, memory, ports and interrupt lines. -/
  machine : Machine δ
  /-- The beam. -/
  beam : Beam
  /-- The picture. -/
  picture : Picture
  /-- The colour table. -/
  palette : Palette
  /-- `instr_time` — cycles not yet counted in `between`. -/
  instrTime : Nat
  /-- `between` — cycles since the start of the frame. It never goes below zero: what
  `single_step` takes off it is part of what it has just added. -/
  between : Nat
  /-- `last_opcode`. -/
  lastOpcode : Byte
  /-- `frame_no`. -/
  frameNo : Nat
  /-- `irq_carry` — an interrupt raised while the processor waits. -/
  irqCarry : Bool
  /-- `debugging`. -/
  debugging : Bool
  /-- `debugger_interrupt`. -/
  debuggerInterrupt : Bool
  /-- `breakpoints`. -/
  breakpoints : List Breakpoint
  /-- `boot` — the boot overlay image. -/
  boot : List Byte

namespace Board

theorem firstLine_lt : 0 < 312 := by decide

/-- A board as constructed and reset with the boot overlay attached, on the default screen. The
source leaves the counters of the frame uninitialised until the first frame; they are zero
here. -/
def powerOn {δ : Type} (chips : δ) (boot : List Byte) : Board δ where
  machine := Machine.powerOn chips boot
  beam :=
    { rasterLine := 0, rasterPixel := 0, brk := false, irq := false, irqClk := 0
      line_lt := firstLine_lt, pixel_lt := by decide, pixel_even := by decide }
  picture :=
    { mode512 := false, borderIndex := 0, fbColumn := 0, fbRow := 0, vborder := true
      visible := false, bmpofs := 0, pixel32 := 0, pixels := fun _ => 0
      firstVisibleLine := 312 - 288, centerOffset := 120, screenWidth := 576 }
  palette := { colours := fun _ => 0, raw := fun _ => 0 }
  instrTime := 0
  between := 0
  lastOpcode := 0
  frameNo := 0
  irqCarry := false
  debugging := false
  debuggerInterrupt := false
  breakpoints := []
  boot := boot

variable {δ : Type} [Chips δ]

/-- `Board::interrupt`. -/
def interrupt (board : Board δ) (on : Bool) : Board δ :=
  { board with machine := (board.machine.bus.interrupt on).toMachine }

/-- `i8080_jump`. -/
def jump (board : Board δ) (addr : Word) : Board δ :=
  { board with machine := (board.machine.bus.jump addr).toMachine }

/-- Whether `Board::check_interrupt` accepts an interrupt. -/
def acceptsInterrupt (board : Board δ) : Bool := board.machine.irq && board.machine.cpu.iff

/-- The body of `Board::check_interrupt`: leave a halt, then `RST 7`. -/
def acceptInterrupt (board : Board δ) : Board δ :=
  let lowered := board.interrupt false
  let resumed :=
    if board.lastOpcode = 0x76 then lowered.jump (lowered.machine.cpu.pc + 1) else lowered
  { resumed with
    machine := (resumed.machine.bus.i8080Execute 0xff).2.toMachine
    instrTime := board.instrTime + 16 }

/-- `Board::check_interrupt`. -/
def checkInterrupt (board : Board δ) : Board δ :=
  if board.acceptsInterrupt then board.acceptInterrupt else board

/-- `Board::check_breakpoint`. -/
def checkBreakpoint (board : Board δ) : Bool :=
  board.breakpoints.contains { addr := board.machine.cpu.pc.toNat, kind := 1 }

/-- `Board::insert_breakpoint` for the two breakpoint types. -/
def insertBreakpoint (board : Board δ) (addr kind : Nat) : Board δ :=
  { board with breakpoints := board.breakpoints ++ [{ addr, kind }] }

/-- `Board::remove_breakpoint` for the two breakpoint types. -/
def removeBreakpoint (board : Board δ) (addr kind : Nat) : Board δ :=
  { board with breakpoints := board.breakpoints.filter (· ≠ { addr, kind }) }

/-- The filler's view of the board. -/
def screen (board : Board δ) : Screen δ where
  beam := board.beam
  picture := board.picture
  palette := board.palette
  io := board.machine.io
  memory := board.machine.memory

/-- The part of the filler's view that the machine observes. -/
def raster (board : Board δ) : Raster δ := board.screen.raster

/-- Store what the filler changed. -/
def setScreen (board : Board δ) (screen : Screen δ) : Board δ :=
  { board with
    beam := screen.beam
    picture := screen.picture
    palette := screen.palette
    machine := { board.machine with io := screen.io, memory := screen.memory } }

/-- The first lines of `Board::single_step`: leftover cycles start a new frame. -/
def foldLeftover (board : Board δ) : Board δ :=
  if board.instrTime ≠ 0 ∧ board.between = 0 then
    { board with between := board.between + board.instrTime, instrTime := 0 }
  else board

/-- The call of `i8080_instruction` in `Board::single_step`. -/
def runInstruction (board : Board δ) : Board δ :=
  let ran := board.machine.bus.i8080Instruction
  { board with
    machine := ran.2.2.toMachine
    lastOpcode := ran.1
    instrTime := board.instrTime + ran.2.1 }

/-- `commit_time` in filler clocks, for the opcode and `instr_time` of `single_step`. -/
def commitTime (opcode : Byte) (instrTime : Nat) : Int :=
  if opcode = 0xd3 then ((instrTime : Int) - 4) * 4 else -1

/-- `commit_time_pal` in filler clocks. -/
def commitTimePal (opcode : Byte) (instrTime : Nat) : Int :=
  if opcode = 0xd3 then commitTime opcode instrTime - 20 else -1

/-- The call of `PixelFiller::fill` in `Board::single_step`, with the extra clocks. -/
def fill (board : Board δ) (updateScreen : Bool) : Board δ × Nat :=
  let filled := board.screen.fill1 (board.instrTime * 4)
    (commitTime board.lastOpcode board.instrTime) (commitTimePal board.lastOpcode board.instrTime)
    updateScreen
  (board.setScreen filled.1, filled.2)

/-- The threshold of the interrupt logic, from the processor cycles of the instruction. -/
def interruptThreshold (cycles : Nat) : Nat :=
  if cycles = 11 then 15 else if cycles = 13 then 15 else if cycles = 17 then 23
  else if cycles = 18 then 21 else cycles

/-- The values that the interrupt logic of `Board::single_step` gives to `irq_carry` and
`irq`. -/
def interruptRequest (beam : Beam) (cpuCycles : Nat) (irq inte irqCarry : Bool) : Bool × Bool :=
  if beam.irq then
    if beam.irqClk > interruptThreshold cpuCycles * 4 then (true, irq) else (irqCarry, irq || inte)
  else if irqCarry then (false, irq || inte)
  else (irqCarry, irq)

/-- The interrupt logic of `Board::single_step`. -/
def interruptLogic (board : Board δ) : Board δ :=
  let machine := board.machine
  let request := interruptRequest board.beam machine.cpu.cpuCycles machine.irq machine.inte
    board.irqCarry
  { board with irqCarry := request.1, machine := { machine with irq := request.2 } }

/-- The ports after the tape, which waits for the machine to boot, and the sound generator ran
for `instrTime` cycles. -/
def chipsAfter (io : Io δ) (tape : Bool) (instrTime : Nat) : Io δ :=
  let advanced : Io δ :=
    if tape then { io with chips := Chips.tapeAdvance io.chips instrTime } else io
  { advanced with
    chips := Chips.soundSteps advanced.chips (instrTime / 2) advanced.tapeOut advanced.covox
      (Chips.tapeSample advanced.chips) }

/-- The tape and the sound generator in `Board::single_step`. -/
def runChips (board : Board δ) : Board δ :=
  { board with
    machine := { board.machine with
      io := chipsAfter board.machine.io (board.frameNo > 60) board.instrTime } }

/-- The last lines of `Board::single_step`: clocks after the end of the frame are kept. -/
def carryLeftover (board : Board δ) (afterbrk12 : Nat) : Board δ :=
  { board with
    between := board.between + board.instrTime - afterbrk12 / 4
    instrTime := afterbrk12 / 4 }

/-- `Board::single_step`. -/
def singleStep (board : Board δ) (updateScreen : Bool) : Board δ :=
  let filled := board.foldLeftover.runInstruction.fill updateScreen
  filled.1.interruptLogic.runChips.carryLeftover filled.2

/-- The frame-scoped state that `Board::execute_frame` sets up. -/
def startFrame (board : Board δ) : Board δ :=
  { board with
    frameNo := board.frameNo + 1
    beam := board.beam.reset
    picture := board.picture.reset
    irqCarry := false
    between := 0 }

/-- `filler.irq = false` in the loop of `Board::execute_frame`. -/
def clearFillerIrq (board : Board δ) : Board δ :=
  { board with beam := { board.beam with irq := false } }

/-- The head of the loop of `Board::execute_frame`. -/
def beginIteration (board : Board δ) : Board δ := board.checkInterrupt.clearFillerIrq

/-- The loop of `Board::execute_frame`, with a bound on its passes. It returns the board and,
for statements about the run, the board at each instruction it executed. `none` means that
the bound was too small; `executeFrame_isSome` shows that `frameFuel` is not. -/
def frameLoop (updateScreen : Bool) : Nat → Board δ → Option (List (Board δ) × Board δ)
  | 0, _ => none
  | fuel + 1, board =>
    if board.beam.brk || board.debuggerInterrupt then some ([], board)
    else
      let begun := board.beginIteration
      if begun.debugging && begun.checkBreakpoint then
        some ([], { begun with debuggerInterrupt := true })
      else
        (frameLoop updateScreen fuel (begun.singleStep updateScreen)).map fun rest =>
          (begun :: rest.1, rest.2)

/-- Enough passes for any frame: each one moves the beam by at least sixteen pixels. -/
def frameFuel : Nat := Beam.framePixels / 16 + 2

/-- `Board::execute_frame` after `poll_debugger`. -/
def executeFrame (board : Board δ) (updateScreen : Bool) : Option (List (Board δ) × Board δ) :=
  if board.debuggerInterrupt then some ([], board)
  else board.startFrame.frameLoop updateScreen frameFuel

/-- `Board::reset`. `Options.pc` is the program counter of the `LOADROM` mode. -/
def reset (board : Board δ) (mode : ResetMode) (optionsPc : Word) : Board δ :=
  let machine : Machine δ := { board.machine with
    io := { board.machine.io with chips := Chips.soundReset board.machine.io.chips } }
  let prepared : Machine δ := match mode with
    | .blkvvod => { machine with memory := { machine.memory with bootbytes := board.boot } }
    | .blksbr => { machine with memory := { machine.memory with bootbytes := [] } }
    | .loadrom =>
      { machine with
        memory := { machine.memory with bootbytes := [] }
        cpu := { machine.cpu with pc := optionsPc, sp := 0xc300 } }
  { board with
    machine := { prepared with cpu := prepared.cpu.init, irq := false }
    lastOpcode := 0 }

/-- `Board::debugger_break`. -/
def debuggerBreak (board : Board δ) : Board δ := { board with debuggerInterrupt := true }

/-- `Board::debugger_continue`. -/
def debuggerContinue (board : Board δ) : Board δ := { board with debuggerInterrupt := false }

/-- `Board::debugger_attached`. -/
def debuggerAttached (board : Board δ) : Board δ :=
  { board with debugging := true }.debuggerBreak

/-- `Board::debugger_detached`. -/
def debuggerDetached (board : Board δ) : Board δ :=
  { board with debugging := false }.debuggerContinue

end Board

end VectorDebugger

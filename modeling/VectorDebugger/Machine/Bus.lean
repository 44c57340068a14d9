import VectorDebugger.Machine.Cpu
import VectorDebugger.Machine.Io

/-!
# Processor bus

The core reaches the rest of the machine only through the `i8080_hal_*` functions. Each of
them is a state transformer here that also records, in order, the callback it fires. An
event carries what the callback receives, with the program counter at that moment. The
mark that a read fetches a byte of the instruction itself is known to the core only; no
callback sees it, and it exists so that statements can speak of data reads.
-/

namespace VectorDebugger

/-- One instrumentation callback. -/
inductive BusEvent
  /-- `Memory::onread`: virtual and physical address, stack access, value, program counter.
  `fetch` marks a byte of the executing instruction. -/
  | read (virt phys : Nat) (stack fetch : Bool) (value : Byte) (pc : Word)
  /-- `Memory::onwrite`: virtual and physical address, stack access, value, program counter. -/
  | write (virt phys : Nat) (stack : Bool) (value : Byte) (pc : Word)
  /-- `onIoInput`. -/
  | input (port value : Byte)
  /-- `onIoOutput`. -/
  | output (port value : Byte)
deriving DecidableEq, Repr

/-- What an instruction can read and change: the processor, the memory, the ports and the
two interrupt lines of the board. -/
structure Machine (δ : Type) where
  /-- Processor registers. -/
  cpu : I8080
  /-- Banked memory. -/
  memory : Memory
  /-- Input and output space. -/
  io : Io δ
  /-- `Board::inte` — the processor's INTE pin. -/
  inte : Bool
  /-- `Board::irq` — a latched interrupt request. -/
  irq : Bool

/-- A machine as constructed and reset with the boot overlay attached: the processor state is
static and starts out zero. -/
def Machine.powerOn {δ : Type} (chips : δ) (boot : List Byte) : Machine δ where
  cpu :=
    { flags := { carry := false, parity := false, halfCarry := false, zero := false, sign := false }
      a := 0, f := 0, b := 0, c := 0, d := 0, e := 0, h := 0, l := 0, sp := 0, pc := 0
      iff := false, eiPending := 0, cpuCycles := 0 }
  memory := { Memory.init with bootbytes := boot }
  io := Io.init chips
  inte := false
  irq := false

/-- A machine together with the callbacks fired so far, oldest first. -/
structure Bus (δ : Type) extends Machine δ where
  /-- Callbacks in the order they fired. -/
  events : List BusEvent

namespace Bus

variable {δ : Type} [Chips δ]

/-- Update the processor. -/
def setCpu (bus : Bus δ) (cpu : I8080) : Bus δ := { bus with cpu }

/-- `i8080_hal_memory_read_byte`, and the reads of `i8080_hal_memory_read_word`. -/
def readAt (bus : Bus δ) (addr : Nat) (stack fetch : Bool) : Byte × Bus δ :=
  let found := bus.memory.read addr stack
  (found.1, { bus with
    events := bus.events ++ [.read addr found.2 stack fetch found.1 bus.cpu.pc] })

/-- `i8080_hal_memory_read_word`; the two reads are taken in the order written. -/
def readWordAt (bus : Bus δ) (addr : Word) (stack fetch : Bool) : Word × Bus δ :=
  let low := bus.readAt addr.toNat stack fetch
  let high := low.2.readAt (addr.toNat + 1) stack fetch
  (wordOf low.1 high.1, high.2)

/-- `i8080_hal_memory_write_byte`, and the writes of `i8080_hal_memory_write_word`. -/
def writeAt (bus : Bus δ) (addr : Nat) (value : Byte) (stack : Bool) : Bus δ :=
  { bus with
    memory := bus.memory.write addr value stack
    events := bus.events ++
      [.write addr (bus.memory.writePhys addr stack) stack value bus.cpu.pc] }

/-- `i8080_hal_memory_write_word`. -/
def writeWordAt (bus : Bus δ) (addr value : Word) (stack : Bool) : Bus δ :=
  (bus.writeAt addr.toNat value.low stack).writeAt (addr.toNat + 1) value.high stack

/-- `RD_BYTE` of data. -/
def rdByte (bus : Bus δ) (addr : Word) : Byte × Bus δ := bus.readAt addr.toNat false false

/-- `RD_WORD` of data. -/
def rdWord (bus : Bus δ) (addr : Word) : Word × Bus δ := bus.readWordAt addr false false

/-- `RD_BYTE(PC++)` — the program counter moves before the read. -/
def fetchByte (bus : Bus δ) : Byte × Bus δ :=
  (bus.setCpu { bus.cpu with pc := bus.cpu.pc + 1 }).readAt bus.cpu.pc.toNat false true

/-- `RD_WORD(PC)` — the program counter stays. -/
def fetchWord (bus : Bus δ) : Word × Bus δ := bus.readWordAt bus.cpu.pc false true

/-- `WR_BYTE`. -/
def wrByte (bus : Bus δ) (addr : Word) (value : Byte) : Bus δ :=
  bus.writeAt addr.toNat value false

/-- `WR_WORD`. -/
def wrWord (bus : Bus δ) (addr value : Word) : Bus δ := bus.writeWordAt addr value false

/-- `PC += 2`. -/
def skipWord (bus : Bus δ) : Bus δ := bus.setCpu { bus.cpu with pc := bus.cpu.pc + 2 }

/-- `PC = addr`. -/
def jump (bus : Bus δ) (addr : Word) : Bus δ := bus.setCpu { bus.cpu with pc := addr }

/-- `PUSH`. -/
def push (bus : Bus δ) (value : Word) : Bus δ :=
  let bus' := bus.setCpu { bus.cpu with sp := bus.cpu.sp - 2 }
  bus'.writeWordAt bus'.cpu.sp value true

/-- `POP`. -/
def pop (bus : Bus δ) : Word × Bus δ :=
  let found := bus.readWordAt bus.cpu.sp true false
  (found.1, found.2.setCpu { found.2.cpu with sp := found.2.cpu.sp + 2 })

/-- `CALL` — the return address is pushed before the operand is read, and the operand is read
with a stack access. -/
def call (bus : Bus δ) : Bus δ :=
  let pushed := bus.push (bus.cpu.pc + 2)
  let target := pushed.readWordAt pushed.cpu.pc true true
  target.2.jump target.1

/-- `i8080_hal_io_input`. -/
def ioInput (bus : Bus δ) (port : Byte) : Byte × Bus δ :=
  let found := bus.io.input port
  (found.1, { bus with io := found.2, events := bus.events ++ [.input port found.1] })

/-- `i8080_hal_io_output`. -/
def ioOutput (bus : Bus δ) (port value : Byte) : Bus δ :=
  { bus with io := bus.io.output port value, events := bus.events ++ [.output port value] }

/-- `i8080_hal_iff`, which is `Board::interrupt`. -/
def interrupt (bus : Bus δ) (on : Bool) : Bus δ :=
  { bus with inte := on, irq := bus.irq && on }

end Bus

end VectorDebugger

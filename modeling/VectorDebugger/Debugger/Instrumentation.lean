import VectorDebugger.Debugger.OpcodeInfo
import VectorDebugger.Debugger.RingBuffer
import VectorDebugger.Machine.Accesses

/-!
# Instrumentation

The part of `DebugBackend` that listens to the machine. While the machine runs freely the
callbacks must find instruction boundaries themselves: `onMemoryRead` takes a read to be an
opcode fetch when a byte counter, loaded from the length table at each opcode, has run out.
A single step sets the counter itself and counts the instruction when it is over.

Wall-clock times are left out; the `uint64_t` counters are natural numbers.
-/

namespace VectorDebugger

/-- `MemoryAccessType`. -/
inductive MemoryAccessType
  | fetch | read | write
deriving DecidableEq, Repr

/-- `struct MemoryAccessEvent`. -/
structure MemoryAccessEvent where
  /-- Number of the instruction that made the access. -/
  instructionSequence : Nat
  /-- Kind of access. -/
  type : MemoryAccessType
  /-- Virtual address. -/
  virt : Word
  /-- Physical address. -/
  phys : Nat
  /-- Value read or written. -/
  value : Byte
  /-- Stack access. -/
  stack : Bool
deriving DecidableEq, Repr

/-- `IoAccessType`. -/
inductive IoAccessType
  | input | output
deriving DecidableEq, Repr

/-- `struct IoAccessEvent`. -/
structure IoAccessEvent where
  /-- Number of the instruction that made the access. -/
  instructionSequence : Nat
  /-- Direction. -/
  type : IoAccessType
  /-- Port. -/
  port : Byte
  /-- Value read or written. -/
  value : Byte
deriving DecidableEq, Repr

/-- `struct InstructionEvent`. -/
structure InstructionEvent where
  /-- Number of the instruction. -/
  sequence : Nat
  /-- Opcode. -/
  opcode : Byte
  /-- Length from the table. -/
  length : Nat
  /-- Operand bytes captured before execution. -/
  operandBytes : Byte × Byte
  /-- Processor before the instruction; its program counter is `pcBefore`. -/
  before : I8080
  /-- Processor after the instruction; it holds `pcAfter` and `cycles`. -/
  after : I8080
deriving DecidableEq, Repr

/-- `struct MemoryStats`. -/
structure MemoryStats where
  /-- Reads of the address. -/
  reads : Nat
  /-- Writes of the address. -/
  writes : Nat
  /-- Number of the last instruction that read it. -/
  lastReadSequence : Nat
  /-- Number of the last instruction that wrote it. -/
  lastWriteSequence : Nat
deriving DecidableEq, Repr

/-- `struct RuntimeAccessBlock`, one of 256 bytes. -/
structure RuntimeAccessBlock where
  /-- Some byte was read as data. -/
  read : Bool
  /-- Some byte was written. -/
  write : Bool
  /-- Some byte was fetched. -/
  fetch : Bool
  /-- Data reads. -/
  readCount : Nat
  /-- Writes. -/
  writeCount : Nat
  /-- Fetches. -/
  fetchCount : Nat
deriving DecidableEq, Repr

/-- `struct RuntimeAccessLogEntry`. -/
structure RuntimeAccessLogEntry where
  /-- Address accessed. -/
  address : Word
  /-- Kind of access. -/
  type : MemoryAccessType
  /-- Address of the accessing instruction. -/
  pc : Word
  /-- Value read or written. -/
  value : Byte
  /-- Number of the entry. -/
  sequence : Nat
deriving DecidableEq, Repr

/-- `struct VramWriteInfo`. -/
structure VramWriteInfo where
  /-- Value written. -/
  value : Byte
  /-- Program counter at the write. -/
  pc : Word
  /-- Number of the writing instruction. -/
  sequence : Nat
deriving DecidableEq, Repr

/-- The recording fields of `DebugBackend`. -/
structure Instrumentation where
  /-- `instrumentationEnabled_`. -/
  instrumentationEnabled : Bool
  /-- `steppingInProgress_`. -/
  steppingInProgress : Bool
  /-- `fetchBasePc_`. -/
  fetchBasePc : Word
  /-- `fetchRemaining_` — bytes of the current instruction still to be read. -/
  fetchRemaining : Nat
  /-- `instructionSequence_`. -/
  instructionSequence : Nat
  /-- `freeRunSequenceStarted_`. -/
  freeRunSequenceStarted : Bool
  /-- `executeCount_`. -/
  executeCount : Word → Nat
  /-- `runtimeAccessMap_`. -/
  runtimeAccessMap : Byte → RuntimeAccessBlock
  /-- `accessSequence_`. -/
  accessSequence : Nat
  /-- `runtimeAccessLog_`. -/
  runtimeAccessLog : RingBuffer RuntimeAccessLogEntry 50000
  /-- `instrHistory`. -/
  instrHistory : RingBuffer InstructionEvent 10000
  /-- `memHistory`. -/
  memHistory : RingBuffer MemoryAccessEvent 50000
  /-- `ioHistory`. -/
  ioHistory : RingBuffer IoAccessEvent 10000
  /-- `memStats`. -/
  memStats : Word → MemoryStats
  /-- `vramLastWrite_`. -/
  vramLastWrite : Nat → VramWriteInfo
  /-- `ioPA_`. -/
  ioPA : Byte
  /-- `ioPB_`. -/
  ioPB : Byte

namespace Instrumentation

/-- `Impl::clearStats`. -/
def clearStats (inst : Instrumentation) : Instrumentation :=
  { inst with
    memStats := fun _ =>
      { reads := 0, writes := 0
        lastReadSequence := 2 ^ 64 - 1, lastWriteSequence := 2 ^ 64 - 1 } }

/-- `DebugBackend::clearActivityCounters`. -/
def clearActivityCounters (inst : Instrumentation) : Instrumentation :=
  { inst with
    executeCount := fun _ => 0
    vramLastWrite := fun _ => { value := 0, pc := 0, sequence := 0 }
    ioPA := 0xff
    ioPB := 0xff }

/-- The recording fields as `DebugBackend::DebugBackend` leaves them. -/
def init : Instrumentation where
  instrumentationEnabled := true
  steppingInProgress := false
  fetchBasePc := 0
  fetchRemaining := 0
  instructionSequence := 0
  freeRunSequenceStarted := false
  executeCount := fun _ => 0
  runtimeAccessMap := fun _ =>
    { read := false, write := false, fetch := false
      readCount := 0, writeCount := 0, fetchCount := 0 }
  accessSequence := 0
  runtimeAccessLog := .empty
  instrHistory := .empty
  memHistory := .empty
  ioHistory := .empty
  memStats := fun _ =>
    { reads := 0, writes := 0
      lastReadSequence := 2 ^ 64 - 1, lastWriteSequence := 2 ^ 64 - 1 }
  vramLastWrite := fun _ => { value := 0, pc := 0, sequence := 0 }
  ioPA := 0xff
  ioPB := 0xff

/-- The recording part of `DebugBackend::reset` and `DebugBackend::restart`. Neither touches
the byte counter or the access map. -/
def reset (inst : Instrumentation) : Instrumentation :=
  { inst with
    instructionSequence := 0
    freeRunSequenceStarted := false
    instrHistory := inst.instrHistory.clear
    memHistory := inst.memHistory.clear
    ioHistory := inst.ioHistory.clear }.clearStats.clearActivityCounters

/-- Whether `DebugBackend::onMemoryRead` takes a read to be an opcode fetch. -/
def startsInstruction (inst : Instrumentation) (virt : Nat) (stack : Bool) (pc : Word) : Bool :=
  !inst.steppingInProgress && inst.fetchRemaining == 0 && !stack &&
    BitVec.ofNat 16 (virt + 1) == pc

/-- The instruction-start detection of `DebugBackend::onMemoryRead`. -/
def detect (inst : Instrumentation) (virt : Nat) (stack : Bool) (value : Byte) (pc : Word) :
    Instrumentation :=
  if inst.startsInstruction virt stack pc then
    let instrAddr := BitVec.ofNat 16 virt
    { inst with
      instructionSequence :=
        if inst.freeRunSequenceStarted then inst.instructionSequence + 1
        else inst.instructionSequence
      freeRunSequenceStarted := true
      executeCount := Function.update inst.executeCount instrAddr (inst.executeCount instrAddr + 1)
      fetchBasePc := instrAddr
      fetchRemaining := getLength value }
  else inst

/-- Append an entry to the access log. -/
def logAccess (inst : Instrumentation) (address : Word) (type : MemoryAccessType)
    (value : Byte) : Instrumentation :=
  { inst with
    accessSequence := inst.accessSequence + 1
    runtimeAccessLog := inst.runtimeAccessLog.push
      { address, type, pc := inst.fetchBasePc, value, sequence := inst.accessSequence + 1 } }

/-- The kind that `DebugBackend::onMemoryRead` gives a read. -/
def readType (inst : Instrumentation) : MemoryAccessType :=
  if inst.fetchRemaining > 0 then .fetch else .read

/-- One read counted in its block. -/
def RuntimeAccessBlock.countRead (block : RuntimeAccessBlock) (isFetch : Bool) :
    RuntimeAccessBlock :=
  if isFetch then { block with fetch := true, fetchCount := block.fetchCount + 1 }
  else { block with read := true, readCount := block.readCount + 1 }

/-- `DebugBackend::onMemoryRead` after the detection. -/
def recordRead (inst : Instrumentation) (virt phys : Nat) (stack : Bool) (value : Byte) :
    Instrumentation :=
  let addr := BitVec.ofNat 16 virt
  let block := Word.high addr
  { inst with
    fetchRemaining := inst.fetchRemaining - 1
    memHistory := inst.memHistory.push
      { instructionSequence := inst.instructionSequence, type := inst.readType
        virt := addr, phys, value, stack }
    memStats := Function.update inst.memStats addr
      { inst.memStats addr with
        reads := (inst.memStats addr).reads + 1, lastReadSequence := inst.instructionSequence }
    runtimeAccessMap := Function.update inst.runtimeAccessMap block
      (RuntimeAccessBlock.countRead (inst.runtimeAccessMap block) (inst.fetchRemaining > 0)) }
    |>.logAccess addr inst.readType value

/-- `DebugBackend::onMemoryRead`. -/
def onMemoryRead (inst : Instrumentation) (virt phys : Nat) (stack : Bool) (value : Byte)
    (pc : Word) : Instrumentation :=
  if !inst.instrumentationEnabled then inst
  else (inst.detect virt stack value pc).recordRead virt phys stack value

/-- `DebugBackend::onMemoryWrite`; `pc` is the program counter that it asks the target for. -/
def onMemoryWrite (inst : Instrumentation) (virt phys : Nat) (stack : Bool) (value : Byte)
    (pc : Word) : Instrumentation :=
  if !inst.instrumentationEnabled then inst
  else
    let addr := BitVec.ofNat 16 virt
    let block := Word.high addr
    { inst with
      memHistory := inst.memHistory.push
        { instructionSequence := inst.instructionSequence, type := .write
          virt := addr, phys, value, stack }
      memStats := Function.update inst.memStats addr
        { inst.memStats addr with
          writes := (inst.memStats addr).writes + 1
          lastWriteSequence := inst.instructionSequence }
      vramLastWrite :=
        if 0xc000 ≤ addr.toNat ∧ addr.toNat < 0xc100 then
          Function.update inst.vramLastWrite (addr.toNat - 0xc000)
            { value, pc, sequence := inst.instructionSequence }
        else inst.vramLastWrite
      runtimeAccessMap := Function.update inst.runtimeAccessMap block
        { inst.runtimeAccessMap block with
          write := true, writeCount := (inst.runtimeAccessMap block).writeCount + 1 } }
      |>.logAccess addr .write value

/-- `DebugBackend::onIoInput`. -/
def onIoInput (inst : Instrumentation) (port value : Byte) : Instrumentation :=
  if !inst.instrumentationEnabled then inst
  else
    { inst with
      ioHistory := inst.ioHistory.push
        { instructionSequence := inst.instructionSequence, type := .input, port, value } }

/-- `DebugBackend::onIoOutput`. -/
def onIoOutput (inst : Instrumentation) (port value : Byte) : Instrumentation :=
  if !inst.instrumentationEnabled then inst
  else
    { inst with
      ioHistory := inst.ioHistory.push
        { instructionSequence := inst.instructionSequence, type := .output, port, value }
      ioPA := if port = 0x03 then value else inst.ioPA
      ioPB := if port = 0x02 then value else inst.ioPB }

/-- The hook that one callback reaches. -/
def observe (inst : Instrumentation) : BusEvent → Instrumentation
  | .read virt phys stack _ value pc => inst.onMemoryRead virt phys stack value pc
  | .write virt phys stack value pc => inst.onMemoryWrite virt phys stack value pc
  | .input port value => inst.onIoInput port value
  | .output port value => inst.onIoOutput port value

/-- The hooks that a list of callbacks reaches, in order. -/
def observeAll (inst : Instrumentation) (events : List BusEvent) : Instrumentation :=
  events.foldl observe inst

/-- `setInstrumentationEnabled`. -/
def setInstrumentationEnabled (inst : Instrumentation) (enabled : Bool) : Instrumentation :=
  { inst with instrumentationEnabled := enabled }

@[simp] theorem observe_instrumentationEnabled (inst : Instrumentation) (event : BusEvent) :
    (inst.observe event).instrumentationEnabled = inst.instrumentationEnabled := by
  cases event with
  | read virt phys stack fetch value pc =>
    simp only [observe, onMemoryRead, detect, recordRead, logAccess]
    split
    · rfl
    · split <;> rfl
  | write virt phys stack value pc => simp only [observe, onMemoryWrite, logAccess]; split <;> rfl
  | input port value => simp only [observe, onIoInput]; split <;> rfl
  | output port value => simp only [observe, onIoOutput]; split <;> rfl

@[simp] theorem observe_steppingInProgress (inst : Instrumentation) (event : BusEvent) :
    (inst.observe event).steppingInProgress = inst.steppingInProgress := by
  cases event with
  | read virt phys stack fetch value pc =>
    simp only [observe, onMemoryRead, detect, recordRead, logAccess]
    split
    · rfl
    · split <;> rfl
  | write virt phys stack value pc => simp only [observe, onMemoryWrite, logAccess]; split <;> rfl
  | input port value => simp only [observe, onIoInput]; split <;> rfl
  | output port value => simp only [observe, onIoOutput]; split <;> rfl

@[simp] theorem observeAll_instrumentationEnabled (events : List BusEvent) :
    ∀ inst : Instrumentation,
      (inst.observeAll events).instrumentationEnabled = inst.instrumentationEnabled := by
  induction events with
  | nil => exact fun inst => rfl
  | cons event events inductionHypothesis =>
    exact fun inst => (inductionHypothesis _).trans (inst.observe_instrumentationEnabled event)

@[simp] theorem observeAll_steppingInProgress (events : List BusEvent) :
    ∀ inst : Instrumentation,
      (inst.observeAll events).steppingInProgress = inst.steppingInProgress := by
  induction events with
  | nil => exact fun inst => rfl
  | cons event events inductionHypothesis =>
    exact fun inst => (inductionHypothesis _).trans (inst.observe_steppingInProgress event)

section Instructions

variable {δ : Type} [Chips δ]

/-- One instruction in free run: its callbacks and nothing else. -/
def freeInstruction (inst : Instrumentation) (machine : Machine δ) : Instrumentation :=
  inst.observeAll machine.events

/-- The fetch window that `stepInstructionDetailed` sets before it executes. -/
def openWindow (inst : Instrumentation) (machine : Machine δ) : Instrumentation :=
  { inst with
    fetchBasePc := machine.cpu.pc
    fetchRemaining := getLength (machine.memory.peek machine.cpu.pc.toNat false)
    steppingInProgress := true }

/-- The window closed again, whatever is left of it. -/
def closeWindow (inst : Instrumentation) : Instrumentation :=
  { inst with steppingInProgress := false, fetchRemaining := 0 }

/-- The operand byte at an offset that `stepInstructionDetailed` captures. -/
def capturedOperand (machine : Machine δ) (offset : Nat) : Byte :=
  if getLength (machine.memory.peek machine.cpu.pc.toNat false) > offset then
    machine.memory.peek ((machine.cpu.pc.toNat + offset) &&& 0xffff) false
  else 0

/-- The event that `stepInstructionDetailed` records. -/
def instructionEvent (inst : Instrumentation) (machine : Machine δ) : InstructionEvent :=
  let opcode := machine.memory.peek machine.cpu.pc.toNat false
  { sequence := inst.instructionSequence
    opcode
    length := getLength opcode
    operandBytes := (capturedOperand machine 1, capturedOperand machine 2)
    before := machine.cpu
    after := machine.next.cpu }

/-- What `stepInstructionDetailed` does once the instruction is over. -/
def countInstruction (inst : Instrumentation) (machine : Machine δ) : Instrumentation :=
  if !inst.instrumentationEnabled then inst
  else
    { inst with
      instrHistory := inst.instrHistory.push (inst.instructionEvent machine)
      executeCount := Function.update inst.executeCount machine.cpu.pc
        (inst.executeCount machine.cpu.pc + 1)
      instructionSequence := inst.instructionSequence + 1
      freeRunSequenceStarted := true }

/-- The recording part of `DebugBackend::stepInstructionDetailed`. -/
def stepInstructionDetailed (inst : Instrumentation) (machine : Machine δ) : Instrumentation :=
  ((inst.openWindow machine).observeAll machine.events).closeWindow.countInstruction machine

/-- What is left when a step is over and recording is on. -/
theorem closeWindow_countInstruction (inst : Instrumentation) (machine : Machine δ)
    (enabled : inst.instrumentationEnabled = true) :
    inst.closeWindow.countInstruction machine =
      { inst with
        steppingInProgress := false
        fetchRemaining := 0
        instrHistory := inst.instrHistory.push (inst.closeWindow.instructionEvent machine)
        executeCount := Function.update inst.executeCount machine.cpu.pc
          (inst.executeCount machine.cpu.pc + 1)
        instructionSequence := inst.instructionSequence + 1
        freeRunSequenceStarted := true } := by
  simp [countInstruction, closeWindow, enabled]

end Instructions

end Instrumentation

end VectorDebugger

import VectorDebugger.Machine.Instruction

/-!
# Read patterns

What each instruction reads, in order, after its opcode. A read is reduced to its address,
the program counter the callback sees with it, and whether it is a stack access or a byte
of the instruction itself. `exec_accesses` checks the patterns against the core.
-/

namespace VectorDebugger

/-- One read, without its physical address and value. -/
structure Access where
  /-- Virtual address. -/
  virt : Nat
  /-- Stack access. -/
  stack : Bool
  /-- A byte of the executing instruction. -/
  fetch : Bool
  /-- Program counter at the read. -/
  pc : Word
deriving DecidableEq, Repr

/-- The read of a callback, if it is one. -/
def BusEvent.access : BusEvent → Option Access
  | .read virt _ stack fetch _ pc => some { virt, stack, fetch, pc }
  | .write .. | .input .. | .output .. => none

/-- The reads among callbacks. -/
def accesses (events : List BusEvent) : List Access := events.filterMap BusEvent.access

@[simp] theorem accesses_append (front back : List BusEvent) :
    accesses (front ++ back) = accesses front ++ accesses back :=
  List.filterMap_append

@[simp] theorem accesses_nil : accesses [] = [] := rfl

@[simp] theorem accesses_read (virt phys : Nat) (stack fetch : Bool) (value : Byte) (pc : Word)
    (events : List BusEvent) :
    accesses (.read virt phys stack fetch value pc :: events) =
      { virt, stack, fetch, pc } :: accesses events := rfl

@[simp] theorem accesses_write (virt phys : Nat) (stack : Bool) (value : Byte) (pc : Word)
    (events : List BusEvent) :
    accesses (.write virt phys stack value pc :: events) = accesses events := rfl

@[simp] theorem accesses_input (port value : Byte) (events : List BusEvent) :
    accesses (.input port value :: events) = accesses events := rfl

@[simp] theorem accesses_output (port value : Byte) (events : List BusEvent) :
    accesses (.output port value :: events) = accesses events := rfl

namespace Machine

variable {δ : Type}

/-- A data read. -/
def dataAccess (machine : Machine δ) (addr : Nat) : Access where
  virt := addr
  stack := false
  fetch := false
  pc := machine.cpu.pc

/-- The read of an operand byte, after the program counter moved over it. -/
def operandByte (machine : Machine δ) : Access where
  virt := machine.cpu.pc.toNat
  stack := false
  fetch := true
  pc := machine.cpu.pc + 1

/-- The reads of an operand word, which leave the program counter in place. -/
def operandWord (machine : Machine δ) (stack : Bool) : List Access :=
  [{ virt := machine.cpu.pc.toNat, stack, fetch := true, pc := machine.cpu.pc },
   { virt := machine.cpu.pc.toNat + 1, stack, fetch := true, pc := machine.cpu.pc }]

/-- The reads of a word from the stack. -/
def stackWord (machine : Machine δ) : List Access :=
  [{ virt := machine.cpu.sp.toNat, stack := true, fetch := false, pc := machine.cpu.pc },
   { virt := machine.cpu.sp.toNat + 1, stack := true, fetch := false, pc := machine.cpu.pc }]

/-- The operand word itself. -/
def operand (machine : Machine δ) : Word :=
  wordOf (machine.memory.read machine.cpu.pc.toNat false).1
    (machine.memory.read (machine.cpu.pc.toNat + 1) false).1

/-- What a case reads, from the machine right after the opcode fetch. -/
def accessesOf (machine : Machine δ) : Instr → List Access
  | .mvi _ | .aluImm _ | .inPort | .outPort => [machine.operandByte]
  | .lxi _ | .shld | .sta | .jmp => machine.operandWord false
  | .jcc cc => if machine.cpu.flags.test cc then machine.operandWord false else []
  | .call => machine.operandWord true
  | .ccc cc => if machine.cpu.flags.test cc then machine.operandWord true else []
  | .lda => machine.operandWord false ++ [machine.dataAccess machine.operand.toNat]
  | .lhld =>
    machine.operandWord false ++
      [machine.dataAccess machine.operand.toNat, machine.dataAccess (machine.operand.toNat + 1)]
  | .ldax rp => [machine.dataAccess (machine.cpu.pair rp).toNat]
  | .movFromM _ | .aluM _ | .inrM => [machine.dataAccess machine.cpu.hl.toNat]
  | .dcrM => [machine.dataAccess machine.cpu.hl.toNat, machine.dataAccess machine.cpu.hl.toNat]
  | .mviM => [machine.dataAccess machine.cpu.hl.toNat, machine.operandByte]
  | .pop _ | .popPsw | .ret | .xthl => machine.stackWord
  | .rcc cc => if machine.cpu.flags.test cc then machine.stackWord else []
  | .nop | .hlt | .stax _ | .inx _ | .dcx _ | .dad _ | .inr _ | .dcr _ => []
  | .rlc | .rrc | .ral | .rar | .daa | .cma | .stc | .cmc => []
  | .mov .. | .movToM _ | .alu .. | .rst _ | .push _ | .pushPsw => []
  | .xchg | .pchl | .sphl | .di | .ei => []

end Machine

namespace Bus

variable {δ : Type} [Chips δ]

/-- The core reads what `accessesOf` lists. -/
theorem exec_accesses (bus : Bus δ) (instr : Instr) :
    accesses (bus.exec instr).events =
      accesses bus.events ++ bus.toMachine.accessesOf instr := by
  cases instr with
  | rcc cc | jcc cc | ccc cc =>
    unfold exec Machine.accessesOf
    dsimp only
    split <;>
      simp [setCpu, readAt, readWordAt, writeAt, writeWordAt, fetchWord, skipWord, jump, push,
        pop, call, Machine.operandWord, Machine.stackWord]
  | _ =>
    simp [exec, Machine.accessesOf, setCpu, readAt, readWordAt, writeAt, writeWordAt, rdByte,
      rdWord, fetchByte, fetchWord, wrByte, wrWord, skipWord, jump, push, pop, call, ioInput,
      ioOutput, interrupt, Machine.dataAccess, Machine.operandByte, Machine.operandWord,
      Machine.stackWord, Machine.operand]

/-- The core only appends callbacks. -/
theorem exec_events (bus : Bus δ) (instr : Instr) :
    ∃ rest, (bus.exec instr).events = bus.events ++ rest := by
  cases instr with
  | rcc cc | jcc cc | ccc cc =>
    unfold exec
    dsimp only
    split <;>
      simp [setCpu, readAt, readWordAt, writeAt, writeWordAt, fetchWord, skipWord, jump, push,
        pop, call]
  | _ =>
    simp [exec, setCpu, readAt, readWordAt, writeAt, writeWordAt, rdByte, rdWord, fetchByte,
      fetchWord, wrByte, wrWord, skipWord, jump, push, pop, call, ioInput, ioOutput, interrupt]

omit [Chips δ] in
@[simp] theorem countdown_events (bus : Bus δ) : bus.countdown.events = bus.events := by
  unfold countdown
  dsimp only
  split
  · rfl
  · split <;> rfl

omit [Chips δ] in
/-- The countdown touches only the interrupt cells. -/
theorem countdown_spec (bus : Bus δ) :
    (∃ iff eiPending, bus.countdown.cpu = { bus.cpu with iff, eiPending }) ∧
      bus.countdown.memory = bus.memory ∧ bus.countdown.io = bus.io := by
  unfold countdown
  dsimp only
  split
  · exact ⟨⟨bus.cpu.iff, bus.cpu.eiPending, rfl⟩, rfl, rfl⟩
  · split
    · exact ⟨⟨true, bus.cpu.eiPending - 1, rfl⟩, rfl, rfl⟩
    · exact ⟨⟨bus.cpu.iff, bus.cpu.eiPending - 1, rfl⟩, rfl, rfl⟩

end Bus

namespace Machine

variable {δ : Type} [Chips δ]

/-- The machine right after the opcode fetch. -/
def fetched (machine : Machine δ) : Machine δ := machine.bus.fetchByte.2.toMachine

/-- The machine after the instruction's own case, before the `EI_PENDING` countdown. -/
def executed (machine : Machine δ) : Machine δ :=
  (machine.bus.fetchByte.2.exec (decode machine.opcode)).toMachine

/-- One instruction is its own case, the countdown and the cycle count. -/
theorem i8080Instruction_eq (machine : Machine δ) :
    machine.bus.i8080Instruction.2.2 =
      (machine.bus.fetchByte.2.exec (decode machine.opcode)).countdown.setCpu
        { (machine.bus.fetchByte.2.exec (decode machine.opcode)).countdown.cpu with
          cpuCycles := ((decode machine.opcode).cycles machine.bus.fetchByte.2.cpu.flags).1 } := by
  have fetched : machine.bus.fetchByte.1 = machine.opcode := rfl
  unfold Bus.i8080Instruction Bus.i8080Execute
  dsimp only
  rw [fetched]

/-- The cycle count fires no callback. -/
theorem events_countdown (machine : Machine δ) : machine.events =
    (machine.bus.fetchByte.2.exec (decode machine.opcode)).countdown.events := by
  unfold events
  rw [machine.i8080Instruction_eq]
  rfl

/-- What follows the instruction's own case touches only the interrupt cells and the cycle
count. -/
theorem next_executed (machine : Machine δ) :
    (∃ iff eiPending cpuCycles,
        machine.next.cpu = { machine.executed.cpu with iff, eiPending, cpuCycles }) ∧
      machine.next.memory = machine.executed.memory ∧ machine.next.io = machine.executed.io := by
  obtain ⟨⟨iff, eiPending, cpu⟩, memory, io⟩ :=
    (machine.bus.fetchByte.2.exec (decode machine.opcode)).countdown_spec
  unfold next executed
  rw [machine.i8080Instruction_eq]
  refine ⟨⟨iff, eiPending,
    ((decode machine.opcode).cycles machine.bus.fetchByte.2.cpu.flags).1, ?_⟩, memory, io⟩
  unfold Bus.setCpu
  dsimp only
  rw [cpu]

/-- The callback of the opcode fetch. -/
def opcodeEvent (machine : Machine δ) : BusEvent :=
  .read machine.cpu.pc.toNat (machine.memory.read machine.cpu.pc.toNat false).2 false true
    machine.opcode (machine.cpu.pc + 1)

/-- The callbacks of an instruction after its opcode fetch. -/
def operandEvents (machine : Machine δ) : List BusEvent := machine.events.tail

/-- An instruction fetches its opcode first. -/
theorem events_eq (machine : Machine δ) :
    machine.events = machine.opcodeEvent :: machine.operandEvents := by
  obtain ⟨rest, found⟩ := machine.bus.fetchByte.2.exec_events (decode machine.opcode)
  have whole : machine.events = machine.opcodeEvent :: rest := by
    rw [machine.events_countdown, Bus.countdown_events, found]
    rfl
  unfold operandEvents
  rw [whole, List.tail_cons]

/-- The reads of an instruction after its opcode fetch. -/
theorem accesses_operandEvents (machine : Machine δ) :
    accesses machine.operandEvents = machine.fetched.accessesOf (decode machine.opcode) := by
  have reads := machine.bus.fetchByte.2.exec_accesses (decode machine.opcode)
  rw [← Bus.countdown_events, ← machine.events_countdown, events_eq] at reads
  exact List.tail_eq_of_cons_eq reads

end Machine

end VectorDebugger

import VectorDebugger.Machine.Accesses

/-!
# Calls

What a `CALL` does to the program counter, the stack pointer and the memory. The core pushes the
return address before it reads the operand, and reads the operand with a stack access, where a
jump reads it as code. The two agree as long as the stack bank shows the operand bytes that code
sees and the return address has not been written over them.
-/

namespace VectorDebugger

namespace Memory

/-- The boot overlay answers reads of an address. -/
def overlaid (mem : Memory) (addr : Nat) (stackrq : Bool) : Bool :=
  mem.bigramSelect (addr &&& 0xffff) stackrq < mem.bootbytes.length

/-- A read after a write finds the value where both reach the same physical byte. -/
theorem read_write (mem : Memory) (addr : Nat) (w8 : Byte) (stackrq : Bool) (at' : Nat)
    (stack : Bool) :
    ((mem.write addr w8 stackrq).read at' stack).1 =
      if mem.overlaid at' stack = false ∧ mem.writePhys at' stack = mem.writePhys addr stackrq
      then w8 else (mem.read at' stack).1 := by
  have selected : (mem.write addr w8 stackrq).bigramSelect (at' &&& 0xffff) stack =
      mem.bigramSelect (at' &&& 0xffff) stack := rfl
  have boot : (mem.write addr w8 stackrq).bootbytes = mem.bootbytes := rfl
  have bytes : (mem.write addr w8 stackrq).bytes =
      Function.update mem.bytes (mem.writePhys addr stackrq) w8 := rfl
  have landed : mem.writePhys at' stack = tobank (mem.bigramSelect (at' &&& 0xffff) stack) := rfl
  unfold read overlaid
  dsimp only
  rw [selected, boot, bytes, landed]
  by_cases inside : mem.bigramSelect (at' &&& 0xffff) stack < mem.bootbytes.length
  · simp only [inside, if_true, decide_true, Bool.true_eq_false, false_and, if_false]
  · simp only [inside, if_false, decide_false, true_and]
    by_cases same : tobank (mem.bigramSelect (at' &&& 0xffff) stack) = mem.writePhys addr stackrq
    · rw [if_pos same, same, Function.update_self]
    · rw [if_neg same, Function.update_of_ne same]

/-- Without the stack bank, stack accesses go where other accesses go. -/
theorem bigramSelect_of_noStack (mem : Memory) (off : mem.modeStack = false) (addr : Nat)
    (stackrq : Bool) : mem.bigramSelect addr stackrq = mem.bigramSelect addr false := by
  unfold bigramSelect
  rw [off]
  simp only [Bool.false_and]

end Memory

namespace Machine

variable {δ : Type} [Chips δ]

/-- The next instruction is a `CALL` or a conditional call. -/
def callNext (machine : Machine δ) : Bool :=
  match decode machine.opcode with
  | .call | .ccc _ => true
  | _ => false

/-- The call is taken. -/
def callTaken (machine : Machine δ) : Bool :=
  match decode machine.opcode with
  | .ccc cc => machine.cpu.flags.test cc
  | _ => true

/-- The address of an operand byte of the next instruction. -/
def operandAddr (machine : Machine δ) (index : Nat) : Nat := (machine.cpu.pc + 1).toNat + index

/-- The operand byte that code sees. -/
def operandCode (machine : Machine δ) (index : Nat) : Byte :=
  (machine.memory.read (machine.operandAddr index) false).1

/-- The operand word that a jump would take. -/
def jumpOperand (machine : Machine δ) : Word :=
  wordOf (machine.operandCode 0) (machine.operandCode 1)

/-- The address of the instruction after a call. -/
def returnAddress (machine : Machine δ) : Word := machine.cpu.pc + 3

/-- The stack pointer below which a call leaves the return address. -/
def callStack (machine : Machine δ) : Word := machine.cpu.sp - 2

/-- The memory with the return address pushed by stack writes. -/
def pushedMemory (machine : Machine δ) : Memory :=
  (machine.memory.write machine.callStack.toNat machine.returnAddress.low true).write
    (machine.callStack.toNat + 1) machine.returnAddress.high true

/-- The byte of the return address that lands where a stack access to an address goes. -/
def pushedOver (machine : Machine δ) (addr : Nat) : Option Byte :=
  if machine.memory.overlaid addr true then none
  else if machine.memory.writePhys addr true =
      machine.memory.writePhys (machine.callStack.toNat + 1) true then
    some machine.returnAddress.high
  else if machine.memory.writePhys addr true =
      machine.memory.writePhys machine.callStack.toNat true then
    some machine.returnAddress.low
  else none

/-- The stack bank shows an operand byte as code sees it, and the return address is not pushed
over it with another value. -/
def OperandIntact (machine : Machine δ) (index : Nat) : Prop :=
  (machine.pushedOver (machine.operandAddr index)).getD
    (machine.memory.read (machine.operandAddr index) true).1 = machine.operandCode index

instance (machine : Machine δ) (index : Nat) : Decidable (machine.OperandIntact index) :=
  inferInstanceAs (Decidable (_ = _))

/-- Nothing of the processor changed but the program counter, the stack pointer, and what an
earlier `EI` and the cycle count bring. -/
def KeepsRegisters (machine after : Machine δ) (pc sp : Word) : Prop :=
  after.cpu =
    { machine.cpu with
      pc, sp, iff := after.cpu.iff, eiPending := after.cpu.eiPending
      cpuCycles := after.cpu.cpuCycles }

/-- A taken call goes to its operand, with the return address pushed by stack writes; one that
is not taken goes to the next instruction. -/
def CallsOperand (machine : Machine δ) : Prop :=
  if machine.callTaken then
    machine.KeepsRegisters machine.next machine.jumpOperand machine.callStack ∧
      machine.next.memory = machine.pushedMemory
  else
    machine.KeepsRegisters machine.next machine.returnAddress machine.cpu.sp ∧
      machine.next.memory = machine.memory

omit [Chips δ] in
/-- Reading an operand byte from the stack bank after the push. -/
theorem read_pushedMemory (machine : Machine δ) (addr : Nat) :
    (machine.pushedMemory.read addr true).1 =
      (machine.pushedOver addr).getD (machine.memory.read addr true).1 := by
  unfold pushedMemory pushedOver
  rw [Memory.read_write, Memory.read_write]
  have overlaid : ∀ value,
      (machine.memory.write machine.callStack.toNat value true).overlaid addr true =
        machine.memory.overlaid addr true := fun _ => rfl
  have landed : ∀ value at',
      (machine.memory.write machine.callStack.toNat value true).writePhys at' true =
        machine.memory.writePhys at' true := fun _ _ => rfl
  rw [overlaid, landed, landed]
  cases machine.memory.overlaid addr true with
  | true => simp
  | false =>
    simp only [true_and, Bool.false_eq_true, if_false]
    split
    · rfl
    · split <;> rfl

omit [Chips δ] in
theorem returnAddress_eq (machine : Machine δ) :
    machine.cpu.pc + 1 + 2 = machine.returnAddress := by
  unfold returnAddress
  rw [BitVec.add_assoc]
  rfl

/-- The case of a taken call: the operand is read from the memory that the push left. -/
theorem executed_of_taken (machine : Machine δ) (isCall : machine.callNext = true)
    (taken : machine.callTaken = true) :
    machine.executed.cpu =
        { machine.cpu with
          pc := wordOf (machine.pushedMemory.read (machine.operandAddr 0) true).1
            (machine.pushedMemory.read (machine.operandAddr 1) true).1
          sp := machine.callStack } ∧
      machine.executed.memory = machine.pushedMemory := by
  have called : machine.executed = machine.bus.fetchByte.2.call.toMachine := by
    unfold callNext at isCall
    unfold callTaken at taken
    unfold executed
    cases instr : decode machine.opcode with
    | call => rfl
    | ccc cc =>
      rw [instr] at taken
      unfold Bus.exec
      exact congrArg Bus.toMachine (if_pos taken)
    | _ => exact absurd isCall (by rw [instr]; exact nofun)
  have back : machine.cpu.pc + 1 + 2 = machine.returnAddress := machine.returnAddress_eq
  rw [called]
  unfold pushedMemory
  rw [← back]
  exact ⟨rfl, rfl⟩

/-- The case of a call that is not taken. -/
theorem executed_of_notTaken (machine : Machine δ) (isCall : machine.callNext = true)
    (notTaken : machine.callTaken = false) :
    machine.executed.cpu = { machine.cpu with pc := machine.returnAddress } ∧
      machine.executed.memory = machine.memory := by
  have skipped : machine.executed = machine.bus.fetchByte.2.skipWord.toMachine := by
    unfold callNext at isCall
    unfold callTaken at notTaken
    unfold executed
    cases instr : decode machine.opcode with
    | call => exact absurd notTaken (by rw [instr]; exact nofun)
    | ccc cc =>
      rw [instr] at notTaken
      have untested : ¬ machine.cpu.flags.test cc = true := by
        intro tested
        exact nomatch tested.symm.trans notTaken
      unfold Bus.exec
      exact congrArg Bus.toMachine (if_neg untested)
    | _ => exact absurd isCall (by rw [instr]; exact nofun)
  rw [skipped, ← machine.returnAddress_eq]
  exact ⟨rfl, rfl⟩

/-- A case that only moves the program counter and the stack pointer keeps the other registers
to the end of the instruction. -/
theorem keepsRegisters_iff (machine : Machine δ) {found stack pc sp : Word}
    (cpu : machine.executed.cpu = { machine.cpu with pc := found, sp := stack }) :
    machine.KeepsRegisters machine.next pc sp ↔ found = pc ∧ stack = sp := by
  obtain ⟨⟨iff', eiPending, cpuCycles, next⟩, -, -⟩ := machine.next_executed
  rw [cpu] at next
  unfold KeepsRegisters
  rw [next]
  constructor
  · intro same
    exact ⟨congrArg I8080.pc same, congrArg I8080.sp same⟩
  · rintro ⟨rfl, rfl⟩
    rfl

/-- A call does as it should exactly when it is not taken or its operand bytes are intact. -/
theorem calls_operand_iff (machine : Machine δ) (isCall : machine.callNext = true) :
    machine.CallsOperand ↔
      (machine.callTaken = true → machine.OperandIntact 0 ∧ machine.OperandIntact 1) := by
  obtain ⟨-, memory, -⟩ := machine.next_executed
  unfold CallsOperand
  cases taken : machine.callTaken with
  | true =>
    obtain ⟨cpu, pushed⟩ := machine.executed_of_taken isCall taken
    rw [if_pos rfl, machine.keepsRegisters_iff cpu, memory, pushed]
    unfold jumpOperand OperandIntact
    rw [wordOf_inj, read_pushedMemory, read_pushedMemory]
    exact ⟨fun calls _ => calls.1.1, fun intact => ⟨⟨intact rfl, rfl⟩, rfl⟩⟩
  | false =>
    obtain ⟨cpu, same⟩ := machine.executed_of_notTaken isCall taken
    rw [if_neg nofun, memory, same]
    refine ⟨fun _ isTaken => absurd isTaken nofun, fun _ => ⟨?_, rfl⟩⟩
    exact (machine.keepsRegisters_iff cpu).mpr ⟨rfl, rfl⟩

omit [Chips δ] in
/-- With the stack bank off, and the pushed bytes landing elsewhere, the operand is intact. -/
theorem operandIntact_of_noStack (machine : Machine δ) (index : Nat)
    (off : machine.memory.modeStack = false)
    (elsewhere : machine.pushedOver (machine.operandAddr index) = none) :
    machine.OperandIntact index := by
  unfold OperandIntact operandCode
  rw [elsewhere, Option.getD_none]
  unfold Memory.read
  rw [machine.memory.bigramSelect_of_noStack off]

/-- `CALL 1000h` at address 0, with the stack bank switched on. -/
def stackedCall : Machine Unit :=
  let machine := powerOn () []
  { machine with
    memory := (((machine.memory.write 0 0xcd false).write 1 0x00 false).write 2 0x10
      false).controlWrite 0x10
    cpu := { machine.cpu with sp := 0x8000 } }

/-- The call goes to address 0, which is what the empty stack bank holds where the operand
is. -/
theorem stackedCall_missesOperand : stackedCall.callNext = true ∧ ¬ stackedCall.CallsOperand := by
  refine ⟨rfl, fun calls => ?_⟩
  have kept : stackedCall.KeepsRegisters stackedCall.next stackedCall.jumpOperand
      stackedCall.callStack := calls.1
  have target := ((stackedCall.keepsRegisters_iff (stackedCall.executed_of_taken rfl rfl).1).mp
    kept).1
  exact absurd target (by decide)

/-- The same call with the stack bank off. -/
theorem calls_operand_unstacked :
    ({ stackedCall with memory := { stackedCall.memory with modeStack := false } } :
      Machine Unit).CallsOperand :=
  (calls_operand_iff _ rfl).mpr fun _ => ⟨by decide, by decide⟩

end Machine

end VectorDebugger

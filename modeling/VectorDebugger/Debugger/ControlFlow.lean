import VectorDebugger.Debugger.CodeAnalyzer
import VectorDebugger.Machine.Calls

/-!
# Static and dynamic control flow

The successors that the code analyzer gives an instruction, against the program counter that the
core leaves. The length table, the classifier and the disassembler's table agree with the core on
every opcode that the disassembler names. On the others, which it takes for data bytes, the core
jumps and calls where the analyzer expects it to go on.
-/

namespace VectorDebugger

namespace Memory

/-- Addresses wrap around at 64 KiB. -/
theorem read_wrap (mem : Memory) (addr : Word) (stackrq : Bool) :
    (mem.read (addr.toNat + 1) stackrq).1 = (mem.read (addr + 1).toNat stackrq).1 := by
  have mask : (0xffff : Nat) = 2 ^ 16 - 1 := rfl
  have wrapped : (addr.toNat + 1) &&& 0xffff = (addr + 1).toNat &&& 0xffff := by
    rw [mask, Nat.and_two_pow_sub_one_eq_mod, Nat.and_two_pow_sub_one_eq_mod, BitVec.toNat_add]
    exact (Nat.mod_mod _ _).symm
  unfold read
  dsimp only
  rw [wrapped]
  split <;> rfl

end Memory

/-- The instruction leaves the straight line, with these flags. -/
def Instr.transfers (flags : Flags) : Instr → Bool
  | .jmp | .call | .ret | .rst _ | .pchl | .hlt => true
  | .jcc cc | .ccc cc | .rcc cc => flags.test cc
  | _ => false

/-- The instruction is a return that is taken, `PCHL` or `HLT`. -/
def Instr.returns (flags : Flags) : Instr → Bool
  | .ret | .pchl | .hlt => true
  | .rcc cc => flags.test cc
  | _ => false

/-- What the tables of the debugger say of an opcode that the core decodes to an instruction. -/
def TablesAgree (opcode : Byte) : Prop :=
  match decode opcode with
  | .jmp =>
    classifyControlFlow opcode = .unconditionalJmp ∧ (opEntry opcode).2 = .jmp ∧
      getLength opcode = 3
  | .jcc _ =>
    classifyControlFlow opcode = .conditionalJmp ∧ (opEntry opcode).2 = .jmp ∧
      getLength opcode = 3
  | .call =>
    classifyControlFlow opcode = .unconditionalCall ∧ (opEntry opcode).2 = .call ∧
      getLength opcode = 3
  | .ccc _ =>
    classifyControlFlow opcode = .conditionalCall ∧ (opEntry opcode).2 = .call ∧
      getLength opcode = 3
  | .rst n =>
    classifyControlFlow opcode = .restart ∧ (opEntry opcode).2 = .rst ∧
      Disassembler.middleBits opcode = n
  | .rcc _ => classifyControlFlow opcode = .conditionalRet ∧ getLength opcode = 1
  | .ret | .pchl | .hlt => True
  | instr => classifyControlFlow opcode = .sequential ∧ getLength opcode = 1 + instr.operandBytes

/-- What the tables say of an instruction. -/
def RowAgrees (opcode : Byte) (format : OpFormat) (length : Nat) : Instr → Prop
  | .jmp => classifyControlFlow opcode = .unconditionalJmp ∧ format = .jmp ∧ length = 3
  | .jcc _ => classifyControlFlow opcode = .conditionalJmp ∧ format = .jmp ∧ length = 3
  | .call => classifyControlFlow opcode = .unconditionalCall ∧ format = .call ∧ length = 3
  | .ccc _ => classifyControlFlow opcode = .conditionalCall ∧ format = .call ∧ length = 3
  | .rst n =>
    classifyControlFlow opcode = .restart ∧ format = .rst ∧ Disassembler.middleBits opcode = n
  | .rcc _ => classifyControlFlow opcode = .conditionalRet ∧ length = 1
  | .ret | .pchl | .hlt => True
  | instr => classifyControlFlow opcode = .sequential ∧ length = 1 + instr.operandBytes

instance (opcode : Byte) (format : OpFormat) (length : Nat) (instr : Instr) :
    Decidable (RowAgrees opcode format length instr) := by
  unfold RowAgrees
  split <;> infer_instance

/-- The debugger's tables agree with the core on every opcode that is not a data byte. -/
theorem tablesAgree (opcode : Byte) (named : (opEntry opcode).2 ≠ .db) : TablesAgree opcode := by
  have rows : ∀ row ∈ (decodeTable.zip (optable.zip opcodeLength)).zipIdx,
      row.1.2.1.2 ≠ .db → RowAgrees (BitVec.ofNat 8 row.2) row.1.2.1.2
        (if row.1.2.2 ≠ 0 then row.1.2.2 else 1) row.1.1 := by
    decide +kernel
  have tables : (optable.zip opcodeLength).length = 256 := by
    rw [List.length_zip, optable_length, opcodeLength_length, Nat.min_self]
  have whole : (decodeTable.zip (optable.zip opcodeLength)).length = 256 := by
    rw [List.length_zip, decodeTable_length, tables, Nat.min_self]
  have row := @forall_getD _ _ (.nop, ("DB", .db), 0) whole
    (fun opcode entry => entry.2.1.2 ≠ .db → RowAgrees opcode entry.2.1.2
      (if entry.2.2 ≠ 0 then entry.2.2 else 1) entry.1) rows opcode
  rw [getD_zip (decodeTable_length.trans tables.symm),
    getD_zip (optable_length.trans opcodeLength_length.symm)] at row
  have agrees : RowAgrees opcode (opEntry opcode).2 (getLength opcode) (decode opcode) := row named
  unfold TablesAgree
  unfold RowAgrees at agrees
  cases instr : decode opcode <;> rw [instr] at agrees <;> exact agrees

/-- Only jumps and calls can be longer than the length table says. -/
theorem getLength_of_stays (opcode : Byte) (flags : Flags)
    (stays : (decode opcode).transfers flags = false) :
    getLength opcode = 1 + (decode opcode).operandBytes := by
  obtain length | ⟨-, jmp | call⟩ := getLength_eq opcode
  · exact length
  · rw [jmp] at stays
    exact nomatch stays
  · rw [call] at stays
    exact nomatch stays

namespace Bus

variable {δ : Type} [Chips δ]

/-- An instruction that stays on the straight line moves over its operand. -/
theorem exec_pc_of_stays (bus : Bus δ) (instr : Instr)
    (stays : instr.transfers bus.cpu.flags = false) :
    (bus.exec instr).cpu.pc = bus.cpu.pc + BitVec.ofNat 16 instr.operandBytes := by
  have still : bus.cpu.pc = bus.cpu.pc + BitVec.ofNat 16 0 := (BitVec.add_zero _).symm
  cases instr with
  | jmp | call | ret | rst | pchl | hlt => exact nomatch stays
  | rcc cc =>
    have untested : ¬ bus.cpu.flags.test cc = true := fun tested => nomatch stays.symm.trans tested
    unfold exec
    dsimp only
    rw [if_neg untested]
    exact still
  | jcc cc | ccc cc =>
    have untested : ¬ bus.cpu.flags.test cc = true := fun tested => nomatch stays.symm.trans tested
    unfold exec
    dsimp only
    rw [if_neg untested]
    rfl
  | mvi r => cases r <;> rfl
  | lxi rp => cases rp <;> rfl
  | aluImm op => cases op <;> rfl
  | mviM | inPort | outPort | shld | lhld | sta | lda => rfl
  | inr r | dcr r | movFromM r => cases r <;> exact still
  | mov dst src => cases dst <;> exact still
  | inx rp | dcx rp | pop rp => cases rp <;> exact still
  | alu op src => cases op <;> exact still
  | aluM op => cases op <;> exact still
  | _ => exact still

end Bus

namespace Machine

variable {δ : Type} [Chips δ]

/-- The bytes that code sees, as the debugger reads them. -/
def code (machine : Machine δ) : DisasmReadFn := fun addr =>
  (machine.memory.read addr.toNat false).1

/-- What the disassembler makes of the next instruction. -/
def disassembled (machine : Machine δ) : DisassembledInstruction :=
  disassemble machine.cpu.pc machine.code

/-- The next instruction leaves the straight line. -/
def transfers (machine : Machine δ) : Bool :=
  (decode machine.opcode).transfers machine.cpu.flags

/-- The next instruction is a return that is taken, `PCHL` or `HLT`. -/
def returns (machine : Machine δ) : Bool := (decode machine.opcode).returns machine.cpu.flags

/-- If the next instruction is a call that is taken, code and the stack bank agree on its
operand. -/
def CallIntact (machine : Machine δ) : Prop :=
  machine.callNext = true → machine.callTaken = true →
    machine.OperandIntact 0 ∧ machine.OperandIntact 1

theorem next_pc (machine : Machine δ) : machine.next.cpu.pc = machine.executed.cpu.pc := by
  obtain ⟨⟨iff', eiPending, cpuCycles, cpu⟩, -, -⟩ := machine.next_executed
  rw [cpu]

/-- An instruction that transfers no control moves by its length in the table. -/
theorem next_pc_of_stays (machine : Machine δ) (stays : machine.transfers = false) :
    machine.next.cpu.pc = machine.cpu.pc + BitVec.ofNat 16 (getLength machine.opcode) := by
  have moved := machine.bus.fetchByte.2.exec_pc_of_stays (decode machine.opcode) stays
  have fetched : machine.bus.fetchByte.2.cpu.pc = machine.cpu.pc + 1 := rfl
  rw [fetched] at moved
  rw [next_pc, getLength_of_stays machine.opcode machine.cpu.flags stays, BitVec.ofNat_add,
    ← BitVec.add_assoc]
  exact moved

omit [Chips δ] in
/-- The operand word of a three-byte instruction, as the disassembler and a jump read it. -/
theorem disassembled_word (machine : Machine δ) :
    wordOf (machine.code (machine.cpu.pc + 1)) (machine.code (machine.cpu.pc + 2)) =
      machine.jumpOperand := by
  have second : machine.cpu.pc + 2 = machine.cpu.pc + 1 + 1 := by
    rw [BitVec.add_assoc]
    rfl
  have high : machine.code (machine.cpu.pc + 2) = machine.operandCode 1 := by
    rw [second]
    exact (machine.memory.read_wrap (machine.cpu.pc + 1) false).symm
  rw [high]
  rfl

omit [Chips δ] in
/-- A jump or call has its operand word for target. -/
theorem disassembled_target (machine : Machine δ) (length : getLength machine.opcode = 3)
    (format : (opEntry machine.opcode).2 = .jmp ∨ (opEntry machine.opcode).2 = .call) :
    machine.disassembled.target = machine.jumpOperand := by
  have op : machine.code machine.cpu.pc = machine.opcode := rfl
  rw [← machine.disassembled_word]
  unfold disassembled disassemble Disassembler.operandBytes
  dsimp only
  rw [op, length]
  obtain jmp | call := format
  · rw [jmp]
    rfl
  · rw [call]
    rfl

omit [Chips δ] in
/-- A restart has its vector for target. -/
theorem disassembled_restart (machine : Machine δ) (format : (opEntry machine.opcode).2 = .rst) :
    machine.disassembled.target =
      BitVec.ofNat 16 (Disassembler.middleBits machine.opcode * 8) := by
  have op : machine.code machine.cpu.pc = machine.opcode := rfl
  unfold disassembled disassemble
  dsimp only
  rw [op, format]
  rfl

/-- A taken call whose operand is intact goes to the operand. -/
theorem next_pc_of_call (machine : Machine δ) (isCall : machine.callNext = true)
    (taken : machine.callTaken = true) (intact : machine.CallIntact) :
    machine.next.cpu.pc = machine.jumpOperand := by
  obtain ⟨cpu, -⟩ := machine.executed_of_taken isCall taken
  obtain ⟨low, high⟩ := intact isCall taken
  rw [next_pc, cpu]
  unfold jumpOperand
  rw [wordOf_inj, read_pushedMemory, read_pushedMemory]
  exact ⟨low, high⟩

/-- The analyzer's successors cover the core. On an opcode that the disassembler names, the
program counter after an instruction is a successor of it, returns, `PCHL` and `HLT` apart. On
every opcode, an instruction that transfers no control moves by its length. -/
theorem control_flow_covered (machine : Machine δ) :
    (machine.returns = false → (opEntry machine.opcode).2 ≠ .db → machine.CallIntact →
        machine.next.cpu.pc ∈ machine.disassembled.successors) ∧
      (machine.transfers = false →
        machine.next.cpu.pc = machine.cpu.pc + BitVec.ofNat 16 (getLength machine.opcode)) := by
  refine ⟨fun stays named intact => ?_, machine.next_pc_of_stays⟩
  have agree := tablesAgree machine.opcode named
  have nextAddr : machine.disassembled.nextAddr =
      machine.cpu.pc + BitVec.ofNat 16 (getLength machine.opcode) := rfl
  have straight : machine.transfers = false →
      machine.next.cpu.pc = machine.disassembled.nextAddr := machine.next_pc_of_stays
  have opcode : machine.disassembled.opcode = machine.opcode := rfl
  unfold DisassembledInstruction.successors
  rw [opcode]
  unfold TablesAgree at agree
  unfold transfers at straight
  unfold returns at stays
  cases instr : decode machine.opcode with
  | jmp =>
    rw [instr] at agree
    obtain ⟨kind, format, length⟩ := agree
    have target : machine.next.cpu.pc = machine.jumpOperand := by
      rw [next_pc]
      unfold executed
      rw [instr]
      rfl
    rw [kind, target, machine.disassembled_target length (Or.inl format)]
    exact List.mem_singleton_self _
  | jcc cc =>
    rw [instr] at agree straight
    obtain ⟨kind, format, length⟩ := agree
    rw [kind]
    cases tested : machine.cpu.flags.test cc with
    | true =>
      have target : machine.next.cpu.pc = machine.jumpOperand := by
        rw [next_pc]
        unfold executed Bus.exec
        rw [instr]
        exact congrArg (fun bus : Bus δ => bus.cpu.pc) (if_pos tested)
      rw [target, machine.disassembled_target length (Or.inl format)]
      exact List.mem_cons_self
    | false =>
      rw [straight tested]
      exact List.mem_cons_of_mem _ (List.mem_singleton_self _)
  | call =>
    rw [instr] at agree
    obtain ⟨kind, format, length⟩ := agree
    have isCall : machine.callNext = true := by
      unfold callNext
      rw [instr]
    have taken : machine.callTaken = true := by
      unfold callTaken
      rw [instr]
    rw [kind, machine.next_pc_of_call isCall taken intact,
      machine.disassembled_target length (Or.inr format)]
    exact List.mem_cons_self
  | ccc cc =>
    rw [instr] at agree straight
    obtain ⟨kind, format, length⟩ := agree
    rw [kind]
    cases tested : machine.cpu.flags.test cc with
    | true =>
      have isCall : machine.callNext = true := by
        unfold callNext
        rw [instr]
      have taken : machine.callTaken = true := by
        unfold callTaken
        rw [instr]
        exact tested
      rw [machine.next_pc_of_call isCall taken intact,
        machine.disassembled_target length (Or.inr format)]
      exact List.mem_cons_self
    | false =>
      rw [straight tested]
      exact List.mem_cons_of_mem _ (List.mem_singleton_self _)
  | rst n =>
    rw [instr] at agree
    obtain ⟨kind, format, bits⟩ := agree
    have target : machine.next.cpu.pc = BitVec.ofNat 16 (8 * n) := by
      rw [next_pc]
      unfold executed
      rw [instr]
      rfl
    rw [kind, target, machine.disassembled_restart format, bits, Nat.mul_comm]
    exact List.mem_cons_self
  | rcc cc =>
    rw [instr] at agree straight stays
    obtain ⟨kind, -⟩ := agree
    rw [kind, straight stays]
    exact List.mem_singleton_self _
  | ret | pchl | hlt =>
    rw [instr] at stays
    exact nomatch stays
  | _ =>
    rw [instr] at agree straight
    obtain ⟨kind, -⟩ := agree
    rw [kind, straight rfl]
    exact List.mem_singleton_self _

/-- A processor at address 0, where an instruction of three bytes has the operand `1000h`. -/
def atOperand (opcode : Byte) : Machine Unit :=
  let machine := powerOn () []
  { machine with
    memory := ((machine.memory.write 0 opcode false).write 1 0x00 false).write 2 0x10 false
    cpu := { machine.cpu with sp := 0x8000 } }

/-- `JNZ 1000h` is covered. -/
theorem control_flow_covered_jnz :
    (atOperand 0xc2).next.cpu.pc ∈ (atOperand 0xc2).disassembled.successors :=
  (atOperand 0xc2).control_flow_covered.1 (by decide) (by decide)
    fun isCall => absurd isCall (by decide)

/-- The core takes `CBh` for a jump to its operand, the analyzer for a data byte. -/
theorem undocumented_jump_uncovered :
    (atOperand 0xcb).returns = false ∧
      (atOperand 0xcb).next.cpu.pc ∉ (atOperand 0xcb).disassembled.successors := by
  decide

end Machine

end VectorDebugger

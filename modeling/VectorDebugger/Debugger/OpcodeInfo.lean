import VectorDebugger.Machine.Instruction

/-!
# Instruction lengths

The length table shared by the instrumentation, the disassembler and the code analysis. It
is stated apart from the processor core, which finds operands by reading them; the two are
compared by `getLength_eq`.
-/

namespace VectorDebugger

/-- `opcode_length`, sixteen opcodes to a line. -/
def opcodeLength : List Nat :=
  [ -- 00
   1, 3, 1, 1, 1, 1, 2, 1, 1, 1, 1, 1, 1, 1, 2, 1,
   -- 10
   1, 3, 1, 1, 1, 1, 2, 1, 1, 1, 1, 1, 1, 1, 2, 1,
   -- 20
   1, 3, 3, 1, 1, 1, 2, 1, 1, 1, 3, 1, 1, 1, 2, 1,
   -- 30
   1, 3, 3, 1, 1, 1, 2, 1, 1, 1, 3, 1, 1, 1, 2, 1,
   -- 40
   1, 1, 1, 1, 1, 1, 1, 1, 1, 1, 1, 1, 1, 1, 1, 1,
   -- 50
   1, 1, 1, 1, 1, 1, 1, 1, 1, 1, 1, 1, 1, 1, 1, 1,
   -- 60
   1, 1, 1, 1, 1, 1, 1, 1, 1, 1, 1, 1, 1, 1, 1, 1,
   -- 70
   1, 1, 1, 1, 1, 1, 1, 1, 1, 1, 1, 1, 1, 1, 1, 1,
   -- 80
   1, 1, 1, 1, 1, 1, 1, 1, 1, 1, 1, 1, 1, 1, 1, 1,
   -- 90
   1, 1, 1, 1, 1, 1, 1, 1, 1, 1, 1, 1, 1, 1, 1, 1,
   -- A0
   1, 1, 1, 1, 1, 1, 1, 1, 1, 1, 1, 1, 1, 1, 1, 1,
   -- B0
   1, 1, 1, 1, 1, 1, 1, 1, 1, 1, 1, 1, 1, 1, 1, 1,
   -- C0
   1, 1, 3, 3, 3, 1, 2, 1, 1, 1, 3, 1, 3, 3, 2, 1,
   -- D0
   1, 1, 3, 2, 3, 1, 2, 1, 1, 1, 3, 2, 3, 1, 2, 1,
   -- E0
   1, 1, 3, 1, 3, 1, 2, 1, 1, 1, 3, 1, 3, 1, 2, 1,
   -- F0
   1, 1, 3, 1, 3, 1, 2, 1, 1, 1, 3, 1, 3, 1, 2, 1]

/-- `opcode_info::get_length`. -/
def getLength (opcode : Byte) : Nat :=
  let len := opcodeLength.getD opcode.toNat 0
  if len ≠ 0 then len else 1

set_option maxRecDepth 4000 in
theorem opcodeLength_length : opcodeLength.length = 256 := by decide

set_option maxRecDepth 4000 in
/-- No entry of the table is zero. -/
theorem getLength_getD (opcode : Byte) : getLength opcode = opcodeLength.getD opcode.toNat 0 := by
  have rows : ∀ entry ∈ opcodeLength, entry ≠ 0 := by decide
  have positive : opcodeLength.getD opcode.toNat 0 ≠ 0 := by
    rw [List.getD_eq_getElem _ _ (opcodeLength_length ▸ opcode.isLt)]
    exact rows _ (List.getElem_mem _)
  unfold getLength
  dsimp only
  rw [if_pos positive]

/-- Operand bytes that the core takes from the instruction stream. -/
def Instr.operandBytes : Instr → Nat
  | .mvi _ | .mviM | .aluImm _ | .inPort | .outPort => 1
  | .lxi _ | .shld | .lhld | .sta | .lda | .jmp | .jcc _ | .call | .ccc _ => 2
  | _ => 0

/-- The table agrees with the core, except that the undocumented jump and calls count as one
byte. -/
theorem getLength_eq (opcode : Byte) :
    getLength opcode = 1 + (decode opcode).operandBytes ∨
      getLength opcode = 1 ∧ (decode opcode = .jmp ∨ decode opcode = .call) := by
  have rows : ∀ row ∈ (decodeTable.zip opcodeLength).zipIdx,
      row.1.2 = 1 + row.1.1.operandBytes ∨
        row.1.2 = 1 ∧ (row.1.1 = .jmp ∨ row.1.1 = .call) := by
    decide +kernel
  have whole : (decodeTable.zip opcodeLength).length = 256 := by
    rw [List.length_zip, decodeTable_length, opcodeLength_length, Nat.min_self]
  have row := @forall_getD _ _ (.nop, 0) whole (fun _ entry => entry.2 = 1 + entry.1.operandBytes ∨
    entry.2 = 1 ∧ (entry.1 = .jmp ∨ entry.1 = .call)) rows opcode
  rw [getD_zip (decodeTable_length.trans opcodeLength_length.symm)] at row
  rw [getLength_getD]
  exact row

end VectorDebugger

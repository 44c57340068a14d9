import VectorDebugger.Debugger.OpcodeInfo
import VectorDebugger.Debugger.RdbText

/-!
# Disassembler

`disassemble` decodes one instruction from a byte reader. Its table is independent of the core's:
each opcode has a mnemonic and the format of its operands, and the opcodes that the 8080 manual
leaves undefined are data bytes, one byte long.
-/

namespace VectorDebugger

/-- `OpFormat`. -/
inductive OpFormat
  | imp | reg | rpair | mvi | alu | mov | imm16 | lxi | jmp | call | ret | rst
  | sta | lda | shld | lhld | inPort | outPort | pchl | db
deriving DecidableEq, Repr

/-- `optable` — mnemonic and format of each opcode, in opcode order. -/
def optable : List (String × OpFormat) :=
  ([ -- 00
   ("NOP", .imp), ("LXI", .lxi), ("STAX", .rpair), ("INX", .rpair),
   ("INR", .reg), ("DCR", .reg), ("MVI", .mvi), ("RLC", .imp),
   ("NOP", .imp), ("DAD", .rpair), ("LDAX", .rpair), ("DCX", .rpair),
   ("INR", .reg), ("DCR", .reg), ("MVI", .mvi), ("RRC", .imp),
   -- 10
   ("NOP", .imp), ("LXI", .lxi), ("STAX", .rpair), ("INX", .rpair),
   ("INR", .reg), ("DCR", .reg), ("MVI", .mvi), ("RAL", .imp),
   ("NOP", .imp), ("DAD", .rpair), ("LDAX", .rpair), ("DCX", .rpair),
   ("INR", .reg), ("DCR", .reg), ("MVI", .mvi), ("RAR", .imp),
   -- 20
   ("NOP", .imp), ("LXI", .lxi), ("SHLD", .shld), ("INX", .rpair),
   ("INR", .reg), ("DCR", .reg), ("MVI", .mvi), ("DAA", .imp),
   ("NOP", .imp), ("DAD", .rpair), ("LHLD", .lhld), ("DCX", .rpair),
   ("INR", .reg), ("DCR", .reg), ("MVI", .mvi), ("CMA", .imp),
   -- 30
   ("NOP", .imp), ("LXI", .lxi), ("STA", .sta), ("INX", .rpair),
   ("INR", .reg), ("DCR", .reg), ("MVI", .mvi), ("STC", .imp),
   ("NOP", .imp), ("DAD", .rpair), ("LDA", .lda), ("DCX", .rpair),
   ("INR", .reg), ("DCR", .reg), ("MVI", .mvi), ("CMC", .imp)] :
    List (String × OpFormat)) ++
  -- 40 to 7F, with the halt at 76
  List.replicate 54 ("MOV", OpFormat.mov) ++ [("HLT", OpFormat.imp)] ++
  List.replicate 9 ("MOV", OpFormat.mov) ++
  -- 80 to BF, eight of each
  ["ADD", "ADC", "SUB", "SBB", "ANA", "XRA", "ORA", "CMP"].flatMap
    (fun mnemonic => List.replicate 8 (mnemonic, OpFormat.alu)) ++
  ([ -- C0
   ("RNZ", .ret), ("POP", .rpair), ("JNZ", .jmp), ("JMP", .jmp),
   ("CNZ", .call), ("PUSH", .rpair), ("ADI", .imm16), ("RST", .rst),
   ("RZ", .ret), ("RET", .ret), ("JZ", .jmp), ("DB", .db),
   ("CZ", .call), ("CALL", .call), ("ACI", .imm16), ("RST", .rst),
   -- D0
   ("RNC", .ret), ("POP", .rpair), ("JNC", .jmp), ("OUT", .outPort),
   ("CNC", .call), ("PUSH", .rpair), ("SUI", .imm16), ("RST", .rst),
   ("RC", .ret), ("DB", .db), ("JC", .jmp), ("IN", .inPort),
   ("CC", .call), ("DB", .db), ("SBI", .imm16), ("RST", .rst),
   -- E0
   ("RPO", .ret), ("POP", .rpair), ("JPO", .jmp), ("XTHL", .imp),
   ("CPO", .call), ("PUSH", .rpair), ("ANI", .imm16), ("RST", .rst),
   ("RPE", .ret), ("PCHL", .pchl), ("JPE", .jmp), ("XCHG", .imp),
   ("CPE", .call), ("DB", .db), ("XRI", .imm16), ("RST", .rst),
   -- F0
   ("RP", .ret), ("POP", .rpair), ("JP", .jmp), ("DI", .imp),
   ("CP", .call), ("PUSH", .rpair), ("ORI", .imm16), ("RST", .rst),
   ("RM", .ret), ("SPHL", .imp), ("JM", .jmp), ("EI", .imp),
   ("CM", .call), ("DB", .db), ("CPI", .imm16), ("RST", .rst)] :
    List (String × OpFormat))

/-- The table entry of an opcode. -/
def opEntry (opcode : Byte) : String × OpFormat := optable.getD opcode.toNat ("DB", .db)

set_option maxRecDepth 4000 in
theorem optable_length : optable.length = 256 := by decide

/-- What holds of every row of the table holds of every opcode. -/
theorem forall_opEntry {P : Byte → String × OpFormat → Prop}
    (rows : ∀ row ∈ optable.zipIdx, P (BitVec.ofNat 8 row.2) row.1) (op : Byte) :
    P op (opEntry op) :=
  forall_getD optable_length rows op

/-- What holds of every row of the table with its length holds of every opcode. -/
theorem forall_opEntry_length {P : Byte → String × OpFormat → Nat → Prop}
    (rows : ∀ row ∈ (optable.zip opcodeLength).zipIdx, P (BitVec.ofNat 8 row.2) row.1.1 row.1.2)
    (op : Byte) : P op (opEntry op) (getLength op) := by
  have same : optable.length = opcodeLength.length :=
    optable_length.trans opcodeLength_length.symm
  have whole : (optable.zip opcodeLength).length = 256 := by
    rw [List.length_zip, optable_length, opcodeLength_length, Nat.min_self]
  have row := @forall_getD _ _ (("DB", .db), 0) whole (fun op both => P op both.1 both.2) rows op
  rw [getD_zip same] at row
  rw [getLength_getD]
  exact row

/-- `DisasmReadFn`. -/
abbrev DisasmReadFn := Word → Byte

/-- `DisassembledInstruction`. -/
structure DisassembledInstruction where
  /-- `address`. -/
  address : Word
  /-- `opcode`. -/
  opcode : Byte
  /-- `length`. -/
  length : Nat
  /-- `bytes` — three of them, zero past the length. -/
  bytes : List Byte
  /-- `mnemonic`. -/
  mnemonic : Text
  /-- `operands`. -/
  operands : Text
  /-- `text`. -/
  text : Text
  /-- `hasTarget`. -/
  hasTarget : Bool
  /-- `target`. -/
  target : Word
deriving DecidableEq, Repr

namespace Disassembler

/-- `reg_name`. -/
def regName (r : Nat) : Text :=
  ascii (["B", "C", "D", "E", "H", "L", "M", "A"].getD (r % 8) "")

/-- `rp_name`. -/
def rpName (rp : Nat) : Text := ascii (["B", "D", "H", "SP"].getD (rp % 4) "")

/-- `rp_push_name`. -/
def rpPushName (rp : Nat) : Text := ascii (["B", "D", "H", "PSW"].getD (rp % 4) "")

/-- One upper-case hexadecimal digit. -/
def hexDigit (n : Nat) : Byte := if n < 10 then BitVec.ofNat 8 (0x30 + n) else BitVec.ofNat 8 (0x37 + n)

/-- `fmt_hex`: a number padded with zeros to the digits asked for, all of which fit. -/
def fmtHex (value : Nat) : Nat → Text
  | 0 => []
  | digits + 1 => fmtHex (value / 16) digits ++ [hexDigit (value % 16)]

/-- The bytes after the opcode, zero past the length. -/
def operandBytes (address : Word) (length : Nat) (readByte : DisasmReadFn) : Byte × Byte :=
  (if length ≥ 2 then readByte (address + 1) else 0,
    if length ≥ 3 then readByte (address + 2) else 0)

/-- Bits 5 to 3 of an opcode. -/
def middleBits (op : Byte) : Nat := ((op >>> 3) &&& 7).toNat

/-- The opcodes whose register pair may be `PSW`. -/
def isPushPop (op : Byte) : Bool :=
  [0xc1, 0xc5, 0xd1, 0xd5, 0xe1, 0xe5, 0xf1, 0xf5].contains op

/-- `di.operands`, by the format of the opcode. -/
def operandText (op b1 : Byte) (word : Word) : OpFormat → Text
  | .imp | .ret | .pchl => []
  | .reg => regName (middleBits op)
  | .rpair =>
    let rp := ((op >>> 4) &&& 3).toNat
    if isPushPop op then rpPushName rp else rpName rp
  | .mvi => regName (middleBits op) ++ ascii ", " ++ fmtHex b1.toNat 2
  | .alu => regName (op &&& 7).toNat
  | .mov =>
    if op = 0x76 then []
    else regName (middleBits op) ++ ascii ", " ++ regName (op &&& 7).toNat
  | .imm16 | .inPort | .outPort => fmtHex b1.toNat 2
  | .lxi => rpName ((op >>> 4) &&& 3).toNat ++ ascii ", " ++ fmtHex word.toNat 4
  | .jmp | .call | .sta | .lda | .shld | .lhld => fmtHex word.toNat 4
  | .rst => fmtHex (middleBits op * 8) 2
  | .db => fmtHex op.toNat 2

/-- `di.target`, for the formats that set `di.hasTarget`. -/
def targetOf (op : Byte) (word : Word) : OpFormat → Option Word
  | .jmp | .call => some word
  | .rst => some (BitVec.ofNat 16 (middleBits op * 8))
  | _ => none

end Disassembler

open Disassembler in
/-- `disassemble`. -/
def disassemble (address : Word) (readByte : DisasmReadFn) : DisassembledInstruction :=
  let op := readByte address
  let length := getLength op
  let operand := operandBytes address length readByte
  let word := wordOf operand.1 operand.2
  let entry := opEntry op
  let mnemonic := if entry.2 = .mov ∧ op = 0x76 then ascii "HLT" else ascii entry.1
  let operands := operandText op operand.1 word entry.2
  let target := targetOf op word entry.2
  { address
    opcode := op
    length
    bytes := [op, operand.1, operand.2]
    mnemonic
    operands
    text := if operands = [] then mnemonic else mnemonic ++ ascii " " ++ operands
    hasTarget := target.isSome
    target := target.getD 0 }

end VectorDebugger

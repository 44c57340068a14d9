import VectorDebugger.Debugger.RdbRoundTrip
import VectorDebugger.Debugger.AsmLayout

/-!
# What the disassembler writes

The text of an instruction is a mnemonic, then the names of its registers, then one number at
most. The mnemonic fixes the kind of the number, and the mnemonic with the names fixes the opcode,
but for three groups. `DB` and `RST` have their opcode in the number. The eight opcodes whose text
is `NOP` have nothing more to tell them apart.
-/

namespace VectorDebugger

/-! ### Texts -/

section Texts

/-- A word and what follows a separator can be told apart. -/
theorem append_separated {c : Byte} {word other rest more : Text} (plain : c ∉ word)
    (plain' : c ∉ other) (first : rest = [] ∨ rest.head? = some c)
    (second : more = [] ∨ more.head? = some c) (same : word ++ rest = other ++ more) :
    word = other ∧ rest = more := by
  have front : ∀ {word rest : Text}, c ∉ word → (rest = [] ∨ rest.head? = some c) →
      (word ++ rest).takeWhile (· ≠ c) = word := by
    intro word rest plain start
    have kept : ∀ d ∈ word, decide (d ≠ c) = true := by
      intro d listed
      exact decide_eq_true fun isC => plain (isC ▸ listed)
    rw [List.takeWhile_append_of_pos kept]
    rcases start with empty | head
    · rw [empty, List.takeWhile_nil, List.append_nil]
    · cases rest with
      | nil => exact absurd head.symm (Option.some_ne_none c)
      | cons d rest =>
        have isC : d = c := Option.some.inj head
        rw [List.takeWhile_cons_of_neg (by rw [isC, decide_eq_true_eq]; exact fun ne => ne rfl),
          List.append_nil]
  have words : word = other := by
    rw [← front plain first, same, front plain' second]
  rw [words] at same
  exact ⟨words, List.append_cancel_left same⟩

/-- `toLower` on a string. -/
def lowerText (s : Text) : Text := s.map toLower

/-- The byte is no lower-case letter. -/
def notLower (c : Byte) : Bool := c < 0x61 || 0x7a < c

/-- Texts without lower-case letters are told apart by their lower-case spelling. -/
theorem lowerText_inj : ∀ {s t : Text}, s.all notLower = true → t.all notLower = true →
    lowerText s = lowerText t → s = t := by
  have byte : ∀ c d : Byte, notLower c = true → notLower d = true → toLower c = toLower d →
      c = d := by
    intro c d first second same
    unfold notLower at first second
    rw [Bool.or_eq_true, decide_eq_true_eq, decide_eq_true_eq] at first second
    unfold toLower at same
    split at same <;> split at same <;> bv_omega
  intro s
  induction s with
  | nil =>
    intro t _ _ same
    exact (List.map_eq_nil_iff.mp same.symm).symm
  | cons c s inductionHypothesis =>
    intro t first second same
    cases t with
    | nil => exact List.map_eq_nil_iff.mp same
    | cons d t =>
      rw [List.all_cons, Bool.and_eq_true] at first second
      have heads := (List.cons.inj same).1
      have tails := (List.cons.inj same).2
      rw [byte c d first.1 second.1 heads, inductionHypothesis first.2 second.2 tails]

open Disassembler in
theorem fmtHex_length (value digits : Nat) : (fmtHex value digits).length = digits := by
  induction digits generalizing value with
  | zero => rfl
  | succ digits inductionHypothesis =>
    unfold fmtHex
    rw [List.length_append, inductionHypothesis, List.length_singleton]

open Disassembler in
/-- A byte of a formatted number is a hexadecimal digit. -/
theorem mem_fmtHex {c : Byte} {value digits : Nat} (listed : c ∈ fmtHex value digits) :
    ∃ n < 16, c = hexDigit n := by
  induction digits generalizing value with
  | zero => exact absurd listed List.not_mem_nil
  | succ digits inductionHypothesis =>
    unfold fmtHex at listed
    rcases List.mem_append.mp listed with before | last
    · exact inductionHypothesis before
    · exact ⟨value % 16, Nat.mod_lt _ (by decide), List.mem_singleton.mp last⟩

open Disassembler in
/-- A property that the sixteen digits have holds of all digits of a number. -/
theorem forall_fmtHex {P : Byte → Prop} (each : ∀ n : Fin 16, P (hexDigit n))
    (value digits : Nat) : ∀ c ∈ fmtHex value digits, P c := by
  intro c listed
  obtain ⟨n, small, rfl⟩ := mem_fmtHex listed
  exact each ⟨n, small⟩

open Disassembler in
/-- Numbers below the bound of their digits are told apart. -/
theorem fmtHex_inj {digits value other : Nat} (first : value < 16 ^ digits)
    (second : other < 16 ^ digits) (same : fmtHex value digits = fmtHex other digits) :
    value = other := by
  cases digits with
  | zero =>
    rw [Nat.pow_zero] at first second
    omega
  | succ digits =>
    have read := scanDigits_fmtHex (digits + 1) value false 0 first (Nat.succ_pos digits)
    rw [same, scanDigits_fmtHex (digits + 1) other false 0 second (Nat.succ_pos digits)] at read
    have numbers := Option.some.inj read
    omega

end Texts

/-! ### The parts of an instruction -/

namespace OpFormat

/-- The digits of the number that the operands end in. -/
def digits : OpFormat → Nat
  | .mvi | .imm16 | .inPort | .outPort | .rst | .db => 2
  | .lxi | .jmp | .call | .sta | .lda | .shld | .lhld => 4
  | .imp | .reg | .rpair | .alu | .mov | .ret | .pchl => 0

/-- The number is an address to which control goes. -/
def isTarget : OpFormat → Bool
  | .jmp | .call | .rst => true
  | _ => false

end OpFormat

namespace Disassembler

/-- `di.mnemonic`. -/
def mnemonicOf (op : Byte) : Text :=
  if (opEntry op).2 = .mov ∧ op = 0x76 then ascii "HLT" else ascii (opEntry op).1

/-- The operands without their number. -/
def namesOf (op : Byte) : OpFormat → Text
  | .reg => regName (middleBits op)
  | .rpair =>
    let rp := ((op >>> 4) &&& 3).toNat
    if isPushPop op then rpPushName rp else rpName rp
  | .mvi => regName (middleBits op) ++ ascii ", "
  | .alu => regName (op &&& 7).toNat
  | .mov =>
    if op = 0x76 then []
    else regName (middleBits op) ++ ascii ", " ++ regName (op &&& 7).toNat
  | .lxi => rpName ((op >>> 4) &&& 3).toNat ++ ascii ", "
  | _ => []

/-- The number that the operands end in. -/
def valueOf (op b1 : Byte) (word : Word) : OpFormat → Nat
  | .mvi | .imm16 | .inPort | .outPort => b1.toNat
  | .lxi | .jmp | .call | .sta | .lda | .shld | .lhld => word.toNat
  | .rst => middleBits op * 8
  | .db => op.toNat
  | .imp | .reg | .rpair | .alu | .mov | .ret | .pchl => 0

/-- The format of an opcode. -/
def formatOf (op : Byte) : OpFormat := (opEntry op).2

/-- The registers that the operands name, without the blanks between them. -/
def tightNames (op : Byte) : Text := (namesOf op (formatOf op)).filter (· ≠ 0x20)

/-- The opcode is one of the eight whose text is `NOP`. -/
def isNop (op : Byte) : Bool := op &&& 0xc7 = 0

/-- The byte is a capital letter. -/
def isCapital (c : Byte) : Bool := Nat.ble 0x41 c.toNat && Nat.ble c.toNat 0x5a

/-! ### The tables -/

/-- What the tables say about an opcode. -/
structure RowSpec (op : Byte) (entry : String × OpFormat) (length : Nat) : Prop where
  /-- The format fixes the length, but for the opcodes that are data. -/
  length : (entry.2 = .db ∨ entry.2 = .rst ∨ entry.2.digits = 0) ∧ length = 1 ∨
    (entry.2 ≠ .db ∧ entry.2 ≠ .rst) ∧
      (entry.2.digits = 2 ∧ length = 2 ∨ entry.2.digits = 4 ∧ length = 3)
  /-- A restart holds its number in the middle bits. -/
  restart : entry.2 = .rst → op = BitVec.ofNat 8 (0xc7 + middleBits op * 8)
  /-- The eight opcodes are entered as `NOP`. -/
  nop : isNop op = true → entry = ("NOP", .imp)
  /-- A mnemonic consists of capital letters. -/
  capitals : (ascii entry.1).all isCapital = true

/-! ### The names in the operands -/

/-- What `regName` can return. -/
def registerNames : List Text := (List.range 8).map regName

/-- What `rpName` and `rpPushName` can return. -/
def pairNames : List Text := (List.range 4).map rpName ++ (List.range 4).map rpPushName

/-- What stands for operands without a number. -/
def bareNames : List Text :=
  [] :: (registerNames ++ pairNames ++
    registerNames.flatMap fun name => registerNames.map (name ++ ascii ", " ++ ·))

theorem regName_mem (r : Nat) : regName r ∈ registerNames := by
  have reduced : regName (r % 8) = regName r := by
    unfold regName
    rw [Nat.mod_mod]
  rw [← reduced]
  exact List.mem_map_of_mem (List.mem_range.mpr (Nat.mod_lt r (by decide)))

theorem rpName_mem (rp : Nat) : rpName rp ∈ pairNames := by
  have reduced : rpName (rp % 4) = rpName rp := by
    unfold rpName
    rw [Nat.mod_mod]
  rw [← reduced]
  exact List.mem_append_left _
    (List.mem_map_of_mem (List.mem_range.mpr (Nat.mod_lt rp (by decide))))

theorem rpPushName_mem (rp : Nat) : rpPushName rp ∈ pairNames := by
  have reduced : rpPushName (rp % 4) = rpPushName rp := by
    unfold rpPushName
    rw [Nat.mod_mod]
  rw [← reduced]
  exact List.mem_append_right _
    (List.mem_map_of_mem (List.mem_range.mpr (Nat.mod_lt rp (by decide))))

/-- Operands without a number are one of the names or two of them. -/
theorem namesOf_bare (op : Byte) {format : OpFormat} (bare : format.digits = 0) :
    namesOf op format ∈ bareNames := by
  have none' : ([] : Text) ∈ bareNames := List.mem_cons_self
  have register : ∀ r, regName r ∈ bareNames := fun r =>
    List.mem_cons_of_mem _ (List.mem_append_left _ (List.mem_append_left _ (regName_mem r)))
  have pair : ∀ name ∈ pairNames, name ∈ bareNames := fun _ listed =>
    List.mem_cons_of_mem _ (List.mem_append_left _ (List.mem_append_right _ listed))
  have two : ∀ r s, regName r ++ ascii ", " ++ regName s ∈ bareNames := fun r s =>
    List.mem_cons_of_mem _ (List.mem_append_right _ (List.mem_flatMap.mpr
      ⟨_, regName_mem r, List.mem_map_of_mem (regName_mem s)⟩))
  cases format with
  | imp => exact none'
  | ret => exact none'
  | pchl => exact none'
  | reg => exact register _
  | alu => exact register _
  | rpair =>
    unfold namesOf
    dsimp only
    split
    · exact pair _ (rpPushName_mem _)
    · exact pair _ (rpName_mem _)
  | mov =>
    unfold namesOf
    dsimp only
    split
    · exact none'
    · exact two _ _
  | _ => cases bare

/-- Before a number there is no name, or one with its comma and a blank. -/
theorem namesOf_number (op : Byte) {format : OpFormat} (number : format.digits ≠ 0) :
    namesOf op format = [] ∨
      ∃ name ∈ registerNames ++ pairNames, namesOf op format = name ++ [0x2c, 0x20] := by
  have separator : ascii ", " = [0x2c, 0x20] := by decide
  cases format with
  | mvi =>
    right
    exact ⟨_, List.mem_append_left _ (regName_mem (middleBits op)), by rw [← separator]; rfl⟩
  | lxi =>
    right
    exact ⟨_, List.mem_append_right _ (rpName_mem ((op >>> 4) &&& 3).toNat),
      by rw [← separator]; rfl⟩
  | imp => exact absurd rfl number
  | ret => exact absurd rfl number
  | pchl => exact absurd rfl number
  | reg => exact absurd rfl number
  | alu => exact absurd rfl number
  | rpair => exact absurd rfl number
  | mov => exact absurd rfl number
  | _ => exact Or.inl rfl

/-! ### Opcodes that share a text -/

/-- A text as a number. -/
def numeral : Text → Nat
  | [] => 0
  | c :: rest => c.toNat + 1 + 257 * numeral rest

/-- The opcode, or the first one of the group that shares its mnemonic and names. -/
def groupOf (op : Byte) : Byte :=
  if isNop op then 0
  else if formatOf op = .db then 0xcb
  else if formatOf op = .rst then 0xc7
  else op

/-- What is compared of an opcode, as numbers. -/
structure OpcodeKey where
  /-- The mnemonic. -/
  mnemonic : Nat
  /-- The names. -/
  names : Nat
  /-- The kind of number. -/
  kind : Nat
  /-- The group. -/
  group : Nat

namespace OpcodeKey

/-- The key of an opcode. -/
def ofEntry (op : Byte) (entry : String × OpFormat) : OpcodeKey where
  mnemonic := numeral (if entry.2 = .mov ∧ op = 0x76 then ascii "HLT" else ascii entry.1)
  names := numeral ((namesOf op entry.2).filter (· ≠ 0x20))
  kind := entry.2.digits + if entry.2.isTarget then 10 else 0
  group := (if isNop op then 0 else if entry.2 = .db then 0xcb
    else if entry.2 = .rst then 0xc7 else op).toNat

/-- Where the kind is looked up. Mnemonics with different kinds have different places. -/
def kindPlace (key : OpcodeKey) : Nat := key.mnemonic % 399

/-- Where the group is looked up. -/
def groupPlace (key : OpcodeKey) : Nat := (key.mnemonic + 7 * key.names) % 2515

/-- The keys of all opcodes. -/
def all : List OpcodeKey :=
  optable.zipIdx.map fun row => ofEntry (BitVec.ofNat 8 row.2) row.1

/-- A table with a byte for each place. -/
def table (place value : OpcodeKey → Nat) : Nat :=
  all.foldl (fun table key => table ||| value key <<< (8 * place key)) 0

/-- A byte of a table. -/
def lookup (table place : Nat) : Nat := (table >>> (8 * place)) % 256

/-- No key is in the way of another. -/
theorem lookup_table : ∀ key ∈ all, lookup (table kindPlace kind) key.kindPlace = key.kind ∧
    lookup (table groupPlace group) key.groupPlace = key.group := by
  decide +kernel

theorem lookup_ofEntry (op : Byte) :
    lookup (table kindPlace kind) (ofEntry op (opEntry op)).kindPlace =
        (ofEntry op (opEntry op)).kind ∧
      lookup (table groupPlace group) (ofEntry op (opEntry op)).groupPlace =
        (ofEntry op (opEntry op)).group := by
  have listed : ofEntry op (opEntry op) ∈ all :=
    @forall_opEntry (fun op entry => ofEntry op entry ∈ all)
      (fun row listed => List.mem_map_of_mem listed) op
  exact lookup_table _ listed

end OpcodeKey

theorem row_spec (op : Byte) : RowSpec op (opEntry op) (getLength op) := by
  apply @forall_opEntry_length RowSpec
  have rows : ∀ row ∈ (optable.zip opcodeLength).zipIdx,
      ((row.1.1.2 = .db ∨ row.1.1.2 = .rst ∨ row.1.1.2.digits = 0) ∧ row.1.2 = 1 ∨
        (row.1.1.2 ≠ .db ∧ row.1.1.2 ≠ .rst) ∧
          (row.1.1.2.digits = 2 ∧ row.1.2 = 2 ∨ row.1.1.2.digits = 4 ∧ row.1.2 = 3)) ∧
      (row.1.1.2 = .rst →
        BitVec.ofNat 8 row.2 = BitVec.ofNat 8 (0xc7 + middleBits (BitVec.ofNat 8 row.2) * 8)) ∧
      (isNop (BitVec.ofNat 8 row.2) = true → row.1.1 = ("NOP", .imp)) ∧
      (ascii row.1.1.1).all isCapital = true := by
    decide +kernel
  intro row listed
  have each := rows row listed
  exact ⟨each.1, each.2.1, each.2.2.1, each.2.2.2⟩

/-- The numbers of two opcodes are of one kind. -/
structure SameKind (op other : Byte) : Prop where
  /-- They have as many digits. -/
  digits : (formatOf op).digits = (formatOf other).digits
  /-- Control goes to both or to none. -/
  isTarget : (formatOf op).isTarget = (formatOf other).isTarget

/-- Opcodes with one mnemonic have one kind of number, and are of one group if their names are the
same too. -/
theorem group_of_mnemonic {op other : Byte} (mnemonic : mnemonicOf op = mnemonicOf other) :
    SameKind op other ∧ (tightNames op = tightNames other → groupOf op = groupOf other) := by
  have same : (OpcodeKey.ofEntry op (opEntry op)).mnemonic =
      (OpcodeKey.ofEntry other (opEntry other)).mnemonic := congrArg numeral mnemonic
  obtain ⟨kind, group⟩ := OpcodeKey.lookup_ofEntry op
  obtain ⟨kind', group'⟩ := OpcodeKey.lookup_ofEntry other
  constructor
  · unfold OpcodeKey.kindPlace at kind kind'
    rw [same, kind'] at kind
    have kinds : (formatOf other).digits + (if (formatOf other).isTarget then 10 else 0) =
        (formatOf op).digits + if (formatOf op).isTarget then 10 else 0 := kind
    have small : ∀ format : OpFormat, format.digits ≤ 4 := fun format => by
      cases format <;> decide
    have first := small (formatOf op)
    have second := small (formatOf other)
    constructor
    · split at kinds <;> split at kinds <;> omega
    · cases one : (formatOf op).isTarget <;> cases two : (formatOf other).isTarget <;>
        rw [one, two] at kinds <;> simp at kinds ⊢ <;> omega
  · intro names
    have tight : (OpcodeKey.ofEntry op (opEntry op)).names =
        (OpcodeKey.ofEntry other (opEntry other)).names := congrArg numeral names
    unfold OpcodeKey.groupPlace at group group'
    rw [same, tight, group'] at group
    exact BitVec.eq_of_toNat_eq group.symm

/-- What the group of an opcode says about it. -/
theorem group_spec (op : Byte) : isNop op = true ∧ groupOf op = 0 ∨
    isNop op = false ∧ (formatOf op = .db ∧ groupOf op = 0xcb ∨
      formatOf op = .rst ∧ groupOf op = 0xc7 ∨
        formatOf op ≠ .db ∧ formatOf op ≠ .rst ∧ groupOf op = op) := by
  unfold groupOf
  by_cases nop : isNop op = true
  · exact Or.inl ⟨nop, if_pos nop⟩
  · rw [if_neg nop]
    refine Or.inr ⟨Bool.eq_false_iff.mpr nop, ?_⟩
    by_cases data : formatOf op = .db
    · exact Or.inl ⟨data, if_pos data⟩
    · rw [if_neg data]
      by_cases restart : formatOf op = .rst
      · exact Or.inr (Or.inl ⟨restart, if_pos restart⟩)
      · exact Or.inr (Or.inr ⟨data, restart, if_neg restart⟩)

/-- The members of a group that is not one opcode share their format. -/
theorem group_cases {op other : Byte} (same : groupOf op = groupOf other) :
    op = other ∨ isNop op = true ∧ isNop other = true ∨
      formatOf op = .db ∧ formatOf other = .db ∨ formatOf op = .rst ∧ formatOf other = .rst := by
  have zero : isNop 0 = true := by decide
  have data : formatOf 0xcb = .db := by decide
  have restart : formatOf 0xc7 = .rst := by decide
  have apart : (0 : Byte) ≠ 0xcb ∧ (0 : Byte) ≠ 0xc7 ∧ (0xcb : Byte) ≠ 0xc7 := by decide
  have one := group_spec op
  have two := group_spec other
  grind

/-- What the operands need of the bytes after the opcode. -/
theorem length_of_format (op : Byte) :
    (formatOf op = .db ∨ formatOf op = .rst ∨ (formatOf op).digits = 0) ∧ getLength op = 1 ∨
      (formatOf op).digits = 2 ∧ getLength op = 2 ∧
        (∀ b1 word, valueOf op b1 word (formatOf op) = b1.toNat) ∨
      (formatOf op).digits = 4 ∧ getLength op = 3 ∧
        ∀ b1 word, valueOf op b1 word (formatOf op) = word.toNat := by
  have table : (formatOf op = .db ∨ formatOf op = .rst ∨
      (formatOf op).digits = 0) ∧ getLength op = 1 ∨
      (formatOf op ≠ .db ∧ formatOf op ≠ .rst) ∧ ((formatOf op).digits = 2 ∧ getLength op = 2 ∨
        (formatOf op).digits = 4 ∧ getLength op = 3) := (row_spec op).length
  rcases table with short | ⟨⟨notDb, notRst⟩, ⟨digits, length⟩ | ⟨digits, length⟩⟩
  · exact Or.inl short
  · refine Or.inr (Or.inl ⟨digits, length, fun b1 word => ?_⟩)
    cases format : formatOf op <;> rw [format] at digits notDb notRst <;>
      first | rfl | exact absurd rfl notDb | exact absurd rfl notRst | cases digits
  · refine Or.inr (Or.inr ⟨digits, length, fun b1 word => ?_⟩)
    cases format : formatOf op <;> rw [format] at digits <;> first | rfl | cases digits

end Disassembler

namespace DisassembledInstruction

/-- The bytes of an instruction. -/
def encoded (di : DisassembledInstruction) : List Byte := di.bytes.take di.length

/-- Two instructions have the same bytes, or both are among the eight whose text is `NOP`. -/
def SameCode (one other : DisassembledInstruction) : Prop :=
  one.encoded = other.encoded ∨
    Disassembler.isNop one.opcode = true ∧ Disassembler.isNop other.opcode = true

end DisassembledInstruction

section Parts

open Disassembler

variable {address there : Word} {readByte readThere : DisasmReadFn}

/-- The two bytes after the opcode, as a word. -/
def decodedWord (address : Word) (readByte : DisasmReadFn) : Word :=
  wordOf (operandBytes address (getLength (readByte address)) readByte).1
    (operandBytes address (getLength (readByte address)) readByte).2

/-- The first byte after the opcode. -/
def decodedByte (address : Word) (readByte : DisasmReadFn) : Byte :=
  (operandBytes address (getLength (readByte address)) readByte).1

/-- The number in the operands of an instruction. -/
def operandValue (address : Word) (readByte : DisasmReadFn) : Nat :=
  valueOf (readByte address) (decodedByte address readByte) (decodedWord address readByte)
    (formatOf (readByte address))

/-- The same opcode and the same number make the same bytes. -/
theorem encoded_eq (opcode : readByte address = readThere there)
    (value : operandValue address readByte = operandValue there readThere) :
    (disassemble address readByte).encoded = (disassemble there readThere).encoded := by
  unfold operandValue decodedByte decodedWord at value
  unfold DisassembledInstruction.encoded disassemble
  dsimp only
  rw [opcode] at value ⊢
  rcases length_of_format (readThere there) with ⟨-, length⟩ | ⟨-, length, number⟩ |
    ⟨-, length, number⟩
  · rw [length]
    rfl
  · rw [number, number, length] at value
    rw [length]
    have byte := BitVec.eq_of_toNat_eq value
    simp only [List.take_succ_cons, List.take_zero, byte]
  · rw [number, number, length] at value
    rw [length]
    have bytes := wordOf_inj.mp (BitVec.eq_of_toNat_eq value)
    simp only [List.take_succ_cons, List.take_zero, bytes.1, bytes.2]

/-- Instructions with the same mnemonic, names and number are the same code. -/
theorem sameCode_of_parts
    (mnemonic : mnemonicOf (readByte address) = mnemonicOf (readThere there))
    (names : tightNames (readByte address) = tightNames (readThere there))
    (value : operandValue address readByte = operandValue there readThere) :
    (disassemble address readByte).SameCode (disassemble there readThere) := by
  rcases group_cases ((group_of_mnemonic mnemonic).2 names) with
    same | nops | ⟨db, db'⟩ | ⟨rst, rst'⟩
  · exact Or.inl (encoded_eq same value)
  · exact Or.inr nops
  · have number := value
    unfold operandValue at number
    rw [db, db'] at number
    exact Or.inl (encoded_eq (BitVec.eq_of_toNat_eq number) value)
  · have number := value
    unfold operandValue at number
    rw [rst, rst'] at number
    have middle : middleBits (readByte address) * 8 = middleBits (readThere there) * 8 := number
    have opcode : readByte address = readThere there := by
      rw [(row_spec _).restart rst, (row_spec _).restart rst', middle]
    exact Or.inl (encoded_eq opcode value)

theorem operandValue_lt (address : Word) (readByte : DisasmReadFn) :
    operandValue address readByte < 16 ^ (formatOf (readByte address)).digits := by
  unfold operandValue valueOf OpFormat.digits
  have byte := (decodedByte address readByte).isLt
  have word := (decodedWord address readByte).isLt
  have op := (readByte address).isLt
  have bits : middleBits (readByte address) ≤ 7 := by
    unfold middleBits
    rw [BitVec.toNat_and]
    exact Nat.and_le_right
  cases formatOf (readByte address) <;> dsimp only <;> omega

/-! ### The text of the disassembler -/

theorem operandText_eq (op b1 : Byte) (word : Word) (format : OpFormat) :
    operandText op b1 word format =
      namesOf op format ++ fmtHex (valueOf op b1 word format) format.digits := by
  cases format <;> first | rfl | exact (List.append_nil _).symm

/-- The operands of an instruction are its names and its number. -/
theorem disassemble_operands (address : Word) (readByte : DisasmReadFn) :
    (disassemble address readByte).operands =
      namesOf (readByte address) (formatOf (readByte address)) ++
        fmtHex (operandValue address readByte) (formatOf (readByte address)).digits :=
  operandText_eq _ _ _ _

/-- A blank and the operands, if there are any. -/
def operandTail (separator : Byte) (operands : Text) : Text :=
  if operands = [] then [] else separator :: operands

theorem operandTail_head (separator : Byte) (operands : Text) :
    operandTail separator operands = [] ∨
      (operandTail separator operands).head? = some separator := by
  unfold operandTail
  split
  · exact Or.inl rfl
  · exact Or.inr rfl

theorem operandTail_inj {separator : Byte} {operands others : Text}
    (same : operandTail separator operands = operandTail separator others) :
    operands = others := by
  unfold operandTail at same
  split_ifs at same with first second second
  · rw [first, second]
  · exact (List.cons.inj same).2

theorem disassemble_text (address : Word) (readByte : DisasmReadFn) :
    (disassemble address readByte).text = mnemonicOf (readByte address) ++
      operandTail 0x20 (disassemble address readByte).operands := by
  have blank : ascii " " = [0x20] := by decide
  have split : (disassemble address readByte).text =
      if (disassemble address readByte).operands = [] then mnemonicOf (readByte address)
      else mnemonicOf (readByte address) ++ ascii " " ++ (disassemble address readByte).operands :=
    rfl
  rw [split, blank]
  unfold operandTail
  split
  · exact (List.append_nil _).symm
  · rw [List.append_assoc, List.singleton_append]

/-- A mnemonic consists of capital letters. -/
theorem mnemonicOf_all (op : Byte) : (mnemonicOf op).all isCapital = true := by
  have halt : (ascii "HLT").all isCapital = true := by decide
  unfold mnemonicOf
  split
  · exact halt
  · exact (row_spec op).capitals

/-- A byte that is no capital letter is not in a mnemonic. -/
theorem notMem_mnemonicOf (op : Byte) {c : Byte} (other : isCapital c = false) :
    c ∉ mnemonicOf op := by
  intro listed
  rw [List.all_eq_true.mp (mnemonicOf_all op) c listed] at other
  cases other

/-- Instructions with the same mnemonic and operands are the same code. -/
theorem sameCode_of_operands
    (mnemonic : mnemonicOf (readByte address) = mnemonicOf (readThere there))
    (operands : (disassemble address readByte).operands =
      (disassemble there readThere).operands) :
    (disassemble address readByte).SameCode (disassemble there readThere) := by
  have digits := (group_of_mnemonic mnemonic).1.1
  rw [disassemble_operands, disassemble_operands, digits] at operands
  have lengths : (fmtHex (operandValue address readByte)
      (formatOf (readThere there)).digits).length =
        (fmtHex (operandValue there readThere) (formatOf (readThere there)).digits).length := by
    rw [fmtHex_length, fmtHex_length]
  obtain ⟨names, numbers⟩ := List.append_inj' operands lengths
  have value : operandValue address readByte = operandValue there readThere :=
    fmtHex_inj (digits ▸ operandValue_lt address readByte) (operandValue_lt there readThere) numbers
  refine sameCode_of_parts mnemonic ?_ value
  unfold tightNames
  rw [names]

/-- The bytes of an instruction are its opcode and its operand bytes. -/
theorem parts_of_encoded
    (same : (disassemble address readByte).encoded = (disassemble there readThere).encoded) :
    readByte address = readThere there ∧
      operandBytes address (getLength (readByte address)) readByte =
        operandBytes there (getLength (readThere there)) readThere := by
  have positive := CodeAnalysis.getLength_pos (readByte address)
  have positive' := CodeAnalysis.getLength_pos (readThere there)
  unfold DisassembledInstruction.encoded disassemble at same
  dsimp only at same
  have opcode : readByte address = readThere there := by
    have heads := congrArg List.head? same
    rw [show getLength (readByte address) = getLength (readByte address) - 1 + 1 by omega,
      show getLength (readThere there) = getLength (readThere there) - 1 + 1 by omega,
      List.take_succ_cons, List.take_succ_cons] at heads
    exact Option.some.inj heads
  refine ⟨opcode, ?_⟩
  rw [opcode] at same ⊢
  unfold operandBytes at same ⊢
  rcases length_of_format (readThere there) with ⟨-, length⟩ | ⟨-, length, -⟩ | ⟨-, length, -⟩
  · rw [length]
    rfl
  · rw [length] at same ⊢
    simp only [ge_iff_le, Nat.le_refl, if_true, List.take_succ_cons, List.take_zero,
      List.cons.injEq, and_true, true_and] at same
    simp only [ge_iff_le, Nat.le_refl, Nat.reduceLeDiff, if_true, if_false, same]
  · rw [length] at same ⊢
    simp only [ge_iff_le, Nat.le_refl, Nat.reduceLeDiff, if_true, List.take_succ_cons,
      List.take_zero, List.cons.injEq, and_true, true_and] at same
    simp only [ge_iff_le, Nat.le_refl, Nat.reduceLeDiff, if_true, same.1, same.2]

/-- A `NOP` has no operands. -/
theorem format_of_isNop (op : Byte) (nop : isNop op = true) :
    mnemonicOf op = ascii "NOP" ∧ formatOf op = .imp := by
  have entry : opEntry op = ("NOP", .imp) := (row_spec op).nop nop
  have format : formatOf op = .imp := congrArg Prod.snd entry
  refine ⟨?_, format⟩
  unfold mnemonicOf
  rw [entry, if_neg fun isMov => absurd isMov.1 (by decide)]

/-- The same code is spelled the same. -/
theorem SameCode.parts
    (same : (disassemble address readByte).SameCode (disassemble there readThere)) :
    mnemonicOf (readByte address) = mnemonicOf (readThere there) ∧
      (disassemble address readByte).operands = (disassemble there readThere).operands := by
  rcases same with same | ⟨nop, nop'⟩
  · obtain ⟨opcode, bytes⟩ := parts_of_encoded same
    refine ⟨by rw [opcode], ?_⟩
    rw [opcode] at bytes
    unfold disassemble
    dsimp only
    rw [opcode, bytes]
  · have first := format_of_isNop (readByte address) nop
    have second := format_of_isNop (readThere there) nop'
    refine ⟨first.1.trans second.1.symm, ?_⟩
    rw [disassemble_operands, disassemble_operands, first.2, second.2]
    rfl

/-- The text of an instruction tells its bytes, but for the eight opcodes of `NOP`. -/
theorem text_eq_iff (address there : Word) (readByte readThere : DisasmReadFn) :
    (disassemble address readByte).text = (disassemble there readThere).text ↔
      (disassemble address readByte).SameCode (disassemble there readThere) := by
  have noBlank : ∀ op : Byte, (0x20 : Byte) ∉ mnemonicOf op :=
    fun op => notMem_mnemonicOf op (by decide)
  rw [disassemble_text, disassemble_text]
  constructor
  · intro same
    obtain ⟨mnemonic, tails⟩ := append_separated (noBlank _) (noBlank _) (operandTail_head _ _)
      (operandTail_head _ _) same
    exact sameCode_of_operands mnemonic (operandTail_inj tails)
  · intro same
    obtain ⟨mnemonic, operands⟩ := SameCode.parts same
    rw [mnemonic, operands]

end Parts

end VectorDebugger

import VectorDebugger.Debugger.Spelling

/-!
# The text of an instruction in the export

`emitInstruction` spells an instruction in small letters. Numbers start with a digit and end in
`h`, and a name may stand for an address. Without names the text tells the bytes, but for the
eight opcodes that are all spelled `nop`.
-/

namespace VectorDebugger

namespace AsmExporter

/-! ### Spelling operands -/

/-- `isalpha` in the C locale. -/
def isAlpha (c : Byte) : Bool := 0x41 ≤ c && c ≤ 0x5a || 0x61 ≤ c && c ≤ 0x7a

/-- `isAllHex`. -/
def isAllHex (s : Text) : Bool := !s.isEmpty && s.all fun c => (hexValue c).isSome

/-- `trim`. -/
def trim (s : Text) : Text := ((s.dropWhile isSpace).reverse.dropWhile isSpace).reverse

/-- The zero before a number that starts with a letter. -/
def literalGuard (hexDigits : Text) : Text := if hexDigits.head?.any isAlpha then [0x30] else []

/-- `hexLiteral`. -/
def hexLiteral (hexDigits : Text) : Text := literalGuard hexDigits ++ hexDigits ++ [0x68]

/-- `regMap`. -/
def regMap : List (Text × Text) :=
  [(ascii "A", ascii "a"), (ascii "B", ascii "b"), (ascii "C", ascii "c"), (ascii "D", ascii "d"),
    (ascii "E", ascii "e"), (ascii "H", ascii "h"), (ascii "L", ascii "l"), (ascii "M", ascii "m"),
    (ascii "PSW", ascii "psw"), (ascii "SP", ascii "sp")]

/-- `classify`. -/
def classify (tok : Text) : Text :=
  match regMap.lookup tok with
  | some name => name
  | none =>
    if isAllHex tok && (tok.length == 2 || tok.length == 4) then hexLiteral (lowerText tok)
    else tok

/-- `convertOperands`; the mnemonic plays no part. -/
def convertOperands (operands : Text) : Text :=
  if 0x2c ∈ operands then
    classify (trim (operands.takeWhile (· ≠ 0x2c))) ++ [0x2c] ++
      classify (trim ((operands.dropWhile (· ≠ 0x2c)).tail))
  else classify (trim operands)

/-- The mnemonics whose operand is the address of data. -/
def addressMnemonics : List Text := [ascii "LDA", ascii "STA", ascii "LHLD", ascii "SHLD"]

/-- `sscanf` of a token of hexadecimal digits. -/
def hexNumber (tok : Text) : Nat := (scanDigits 0 false tok).getD 0

/-- The operand that `emitInstruction` writes. -/
def operandOf (resolveName : Word → Text) (instr : AnalyzedInstruction) : Text :=
  if instr.hasTarget then
    let name := resolveName instr.target
    if name ≠ [] then name else hexLiteral (Disassembler.fmtHex instr.target.toNat 4)
  else if instr.operands = [] then []
  else
    let text := convertOperands instr.operands
    let tok := trim instr.operands
    if instr.mnemonic ∈ addressMnemonics ∧ isAllHex tok = true ∧ tok.length = 4 then
      let name := resolveName (BitVec.ofNat 16 (hexNumber tok))
      if name ≠ [] then name else text
    else text

/-- `emitInstruction`. -/
def emitInstruction (resolveName : Word → Text) (instr : AnalyzedInstruction) : Text :=
  [0x09] ++ lowerText instr.mnemonic ++
    (if instr.hasTarget = true ∨ instr.operands ≠ [] then
      [0x09] ++ operandOf resolveName instr else []) ++ [0x0a]

/-- `emitInstruction` without names. -/
def emitPlain (instr : AnalyzedInstruction) : Text := emitInstruction (fun _ => []) instr

/-! ### Numbers -/

section Numbers

open Disassembler

theorem notMem_fmtHex {c : Byte} (plain : ∀ n : Fin 16, hexDigit n ≠ c) (value digits : Nat) :
    c ∉ fmtHex value digits := by
  intro listed
  obtain ⟨n, small, same⟩ := mem_fmtHex listed
  exact plain ⟨n, small⟩ same.symm

theorem dropWhile_isSpace {s : Text} (solid : ∀ c ∈ s, isSpace c = false) :
    s.dropWhile isSpace = s := by
  cases s with
  | nil => rfl
  | cons c s =>
    exact List.dropWhile_cons_of_neg (by rw [solid c List.mem_cons_self]; exact Bool.false_ne_true)

theorem trim_solid {s : Text} (solid : ∀ c ∈ s, isSpace c = false) : trim s = s := by
  unfold trim
  rw [dropWhile_isSpace solid, dropWhile_isSpace, List.reverse_reverse]
  exact fun c listed => solid c (List.mem_reverse.mp listed)

theorem isSpace_fmtHex (value digits : Nat) : ∀ c ∈ fmtHex value digits, isSpace c = false :=
  forall_fmtHex (by decide) value digits

/-- Two or four digits are no register, and become a number. -/
theorem classify_fmtHex {value digits : Nat} (width : digits = 2 ∨ digits = 4) :
    classify (fmtHex value digits) = hexLiteral (lowerText (fmtHex value digits)) := by
  have length := fmtHex_length value digits
  have notS : (0x53 : Byte) ∉ fmtHex value digits := notMem_fmtHex (by decide) value digits
  have notRegister : ∀ entry ∈ regMap, fmtHex value digits ≠ entry.1 := by
    have sizes : ∀ entry ∈ regMap, entry.1.length ≠ 2 ∧ entry.1.length ≠ 4 ∨ 0x53 ∈ entry.1 := by
      decide
    intro entry listed same
    rcases sizes entry listed with ⟨notTwo, notFour⟩ | hasS
    · rw [← same, length] at notTwo notFour
      omega
    · exact notS (same ▸ hasS)
  have missing : regMap.lookup (fmtHex value digits) = none := by
    rw [List.lookup_eq_none_iff]
    exact fun entry listed => bne_iff_ne.mpr (notRegister entry listed)
  have hex : isAllHex (fmtHex value digits) = true := by
    unfold isAllHex
    rw [Bool.and_eq_true]
    constructor
    · rw [Bool.not_eq_true', List.isEmpty_eq_false_iff]
      intro empty
      rw [empty, List.length_nil] at length
      omega
    · exact List.all_eq_true.mpr (forall_fmtHex (by decide) value digits)
  unfold classify
  rw [missing, hex, length]
  dsimp only
  rw [if_pos]
  rcases width with rfl | rfl <;> rfl

/-- Operands without a comma are one token. -/
theorem convertOperands_single {s : Text} (comma : 0x2c ∉ s) :
    convertOperands s = classify (trim s) := if_neg comma

/-- A name, a comma and a number. -/
theorem convertOperands_pair {name number : Text} (comma : 0x2c ∉ name) :
    convertOperands (name ++ 0x2c :: 0x20 :: number) =
      classify (trim name) ++ [0x2c] ++ classify (trim (0x20 :: number)) := by
  have listed : (0x2c : Byte) ∈ name ++ 0x2c :: 0x20 :: number :=
    List.mem_append_right _ List.mem_cons_self
  have before : ∀ c ∈ name, decide (c ≠ 0x2c) = true := fun c known =>
    decide_eq_true fun isComma => comma (isComma ▸ known)
  unfold convertOperands
  rw [if_pos listed, List.takeWhile_append_of_pos before, List.dropWhile_append_of_pos before,
    List.takeWhile_cons_of_neg (by decide), List.dropWhile_cons_of_neg (by decide),
    List.append_nil, List.tail_cons]

theorem trim_blank {s : Text} (solid : ∀ c ∈ s, isSpace c = false) :
    trim (0x20 :: s) = s := by
  have blank : isSpace 0x20 = true := by decide
  unfold trim
  rw [List.dropWhile_cons_of_pos blank]
  exact trim_solid solid

theorem lowerText_length (s : Text) : (lowerText s).length = s.length := List.length_map _

/-- A number of known width ends the text it stands in. -/
theorem hexLiteral_inj {front back digits others : Text} (lengths : digits.length = others.length)
    (same : front ++ hexLiteral digits = back ++ hexLiteral others) :
    front = back ∧ digits = others := by
  unfold hexLiteral at same
  rw [← List.append_assoc, ← List.append_assoc, ← List.append_assoc, ← List.append_assoc] at same
  have shorter := List.append_cancel_right same
  obtain ⟨fronts, numbers⟩ := List.append_inj' shorter lengths
  rw [numbers] at fronts
  exact ⟨List.append_cancel_right fronts, numbers⟩

end Numbers

/-! ### The parts of a spelled instruction -/

section Spelled

open Disassembler

variable {address there : Word} {readByte readThere : DisasmReadFn}

theorem hasTarget_eq (address : Word) (readByte : DisasmReadFn) :
    (disassemble address readByte).hasTarget = (formatOf (readByte address)).isTarget := by
  unfold disassemble
  dsimp only
  have format : (opEntry (readByte address)).2 = formatOf (readByte address) := rfl
  rw [format]
  cases formatOf (readByte address) <;> rfl

/-- A target is the number of the operands, and there are no names beside it. -/
theorem target_eq (target : (formatOf (readByte address)).isTarget = true) :
    (disassemble address readByte).target.toNat = operandValue address readByte ∧
      tightNames (readByte address) = [] := by
  have bits : middleBits (readByte address) < 8 :=
    Nat.lt_of_le_of_lt Nat.and_le_right (by decide)
  have format : (opEntry (readByte address)).2 = formatOf (readByte address) := rfl
  unfold disassemble operandValue tightNames
  dsimp only
  rw [format]
  cases kind : formatOf (readByte address) <;> rw [kind] at target <;> try cases target
  · exact ⟨rfl, rfl⟩
  · exact ⟨rfl, rfl⟩
  · refine ⟨?_, rfl⟩
    have number : (BitVec.ofNat 16 (middleBits (readByte address) * 8)).toNat =
        middleBits (readByte address) * 8 := by
      rw [BitVec.toNat_ofNat]
      exact Nat.mod_eq_of_lt (by omega)
    exact number

/-- The operand of an instruction without a target is its converted operands. -/
theorem operandOf_plain {instr : AnalyzedInstruction} (straight : instr.hasTarget = false) :
    operandOf (fun _ => []) instr = convertOperands instr.operands := by
  have empty : convertOperands [] = [] := by decide
  unfold operandOf
  rw [straight, if_neg Bool.false_ne_true]
  by_cases none' : instr.operands = []
  · rw [if_pos none', none', empty]
  · rw [if_neg none']
    simp only [ne_eq, not_true_eq_false, if_false, ite_self]

/-- Names alone are converted to small letters. -/
theorem convert_names (op : Byte) (bare : (formatOf op).digits = 0) :
    convertOperands (namesOf op (formatOf op)) = lowerText (tightNames op) := by
  have names : ∀ names ∈ bareNames,
      convertOperands names = lowerText (names.filter (· ≠ 0x20)) := by
    decide
  exact names _ (namesOf_bare op bare)

/-- Before a number there is no name, or one with its comma and a blank. -/
theorem names_before (op : Byte) (number : (formatOf op).digits ≠ 0) :
    namesOf op (formatOf op) = [] ∨ ∃ name, namesOf op (formatOf op) = name ++ [0x2c, 0x20] ∧
      0x2c ∉ name ∧ classify (trim name) ++ [0x2c] = lowerText (tightNames op) := by
  have names : ∀ name ∈ registerNames ++ pairNames, 0x2c ∉ name ∧
      classify (trim name) ++ [0x2c] =
        lowerText ((name ++ [0x2c, 0x20]).filter (· ≠ 0x20)) := by
    decide
  rcases namesOf_number op number with none' | ⟨name, listed, split⟩
  · exact Or.inl none'
  · refine Or.inr ⟨name, split, (names name listed).1, ?_⟩
    unfold tightNames
    rw [split]
    exact (names name listed).2

/-- Names and a number are converted apart. -/
theorem convert_number (op : Byte) (value : Nat)
    (number : (formatOf op).digits ≠ 0) :
    convertOperands (namesOf op (formatOf op) ++ fmtHex value (formatOf op).digits) =
      lowerText (tightNames op) ++ hexLiteral (lowerText (fmtHex value (formatOf op).digits)) := by
  have width : (formatOf op).digits = 2 ∨ (formatOf op).digits = 4 := by
    cases format : formatOf op <;> rw [format] at number <;>
      first | exact Or.inl rfl | exact Or.inr rfl | exact absurd rfl number
  have solid := isSpace_fmtHex value (formatOf op).digits
  rcases names_before op number with none' | ⟨name, split, comma, small⟩
  · have tight : tightNames op = [] := by
      unfold tightNames
      rw [none', List.filter_nil]
    rw [none', tight, List.nil_append, convertOperands_single (notMem_fmtHex (by decide) _ _),
      trim_solid solid, classify_fmtHex width]
    rfl
  · rw [split, List.append_assoc, List.cons_append, List.cons_append, List.nil_append,
      convertOperands_pair comma, trim_blank solid, classify_fmtHex width, small]

theorem notLower_of_isCapital {s : Text} (capital : s.all isCapital = true) :
    s.all notLower = true := by
  rw [List.all_eq_true] at capital ⊢
  intro c listed
  have bounds := capital c listed
  unfold isCapital at bounds
  rw [Bool.and_eq_true, Nat.ble_eq, Nat.ble_eq] at bounds
  unfold notLower
  rw [Bool.or_eq_true, decide_eq_true_eq, decide_eq_true_eq, BitVec.lt_def]
  exact Or.inl (Nat.lt_of_le_of_lt bounds.2 (by decide))

theorem notLower_fmtHex (value digits : Nat) : (fmtHex value digits).all notLower = true :=
  List.all_eq_true.mpr (forall_fmtHex (by decide) value digits)

theorem notLower_tightNames (op : Byte) : (tightNames op).all notLower = true := by
  have single : ∀ names ∈ bareNames, names.all notLower = true := by decide
  have before : ∀ name ∈ registerNames ++ pairNames,
      (name ++ [0x2c, 0x20]).all notLower = true := by
    decide
  have names : (namesOf op (formatOf op)).all notLower = true := by
    by_cases bare : (formatOf op).digits = 0
    · exact single _ (namesOf_bare op bare)
    · rcases namesOf_number op bare with none' | ⟨name, listed, split⟩
      · rw [none']
        rfl
      · rw [split]
        exact before name listed
  rw [List.all_eq_true] at names ⊢
  intro c listed
  exact names c (List.mem_of_mem_filter listed)

/-- Numbers in small letters are told apart. -/
theorem lowerText_fmtHex_inj {digits value other : Nat} (first : value < 16 ^ digits)
    (second : other < 16 ^ digits)
    (same : lowerText (fmtHex value digits) = lowerText (fmtHex other digits)) : value = other :=
  fmtHex_inj first second
    (lowerText_inj (notLower_fmtHex value digits) (notLower_fmtHex other digits) same)

/-- The text after the mnemonic. -/
def operandPart (instr : AnalyzedInstruction) : Text :=
  if instr.hasTarget = true ∨ instr.operands ≠ [] then
    [0x09] ++ operandOf (fun _ => []) instr else []

/-- Instructions with one spelling have one mnemonic, and their operands are spelled the same. -/
theorem parts_of_emitPlain
    (same : emitPlain (disassemble address readByte).analyzed =
      emitPlain (disassemble there readThere).analyzed) :
    mnemonicOf (readByte address) = mnemonicOf (readThere there) ∧
      operandPart (disassemble address readByte).analyzed =
        operandPart (disassemble there readThere).analyzed := by
  have noTab : ∀ op : Byte, (0x09 : Byte) ∉ lowerText (mnemonicOf op) := by
    intro op listed
    have small : ∀ c : Byte, isCapital c = true → toLower c ≠ 0x09 := by decide
    obtain ⟨c, known, isTab⟩ := List.mem_map.mp listed
    exact small c (List.all_eq_true.mp (mnemonicOf_all op) c known) isTab
  have head : ∀ instr : AnalyzedInstruction,
      operandPart instr = [] ∨ (operandPart instr).head? = some 0x09 := by
    intro instr
    unfold operandPart
    split
    · exact Or.inr rfl
    · exact Or.inl rfl
  have shorter := List.append_cancel_right same
  rw [List.append_assoc, List.append_assoc] at shorter
  obtain ⟨mnemonic, operands⟩ := append_separated (noTab (readByte address))
    (noTab (readThere there)) (head _) (head _) (List.append_cancel_left shorter)
  exact ⟨lowerText_inj (notLower_of_isCapital (mnemonicOf_all _))
    (notLower_of_isCapital (mnemonicOf_all _)) mnemonic, operands⟩

/-- The text of an instruction tells its bytes, but for the eight opcodes of `nop`. -/
theorem sameCode_of_emitPlain
    (same : emitPlain (disassemble address readByte).analyzed =
      emitPlain (disassemble there readThere).analyzed) :
    (disassemble address readByte).SameCode (disassemble there readThere) := by
  obtain ⟨mnemonic, operands⟩ := parts_of_emitPlain same
  obtain ⟨⟨digits, targets⟩, -⟩ := group_of_mnemonic mnemonic
  have bound := operandValue_lt address readByte
  have bound' := operandValue_lt there readThere
  rw [digits] at bound
  have first : (disassemble address readByte).analyzed.hasTarget =
      (formatOf (readByte address)).isTarget := hasTarget_eq address readByte
  have second : (disassemble there readThere).analyzed.hasTarget =
      (formatOf (readThere there)).isTarget := hasTarget_eq there readThere
  cases target : (formatOf (readThere there)).isTarget with
  | true =>
    rw [target] at targets second
    rw [targets] at first
    obtain ⟨number, names⟩ := target_eq targets
    obtain ⟨number', names'⟩ := target_eq target
    have small : (formatOf (readThere there)).digits ≤ 4 := by
      cases formatOf (readThere there) <;> decide
    have room : 16 ^ (formatOf (readThere there)).digits ≤ 16 ^ 4 :=
      Nat.pow_le_pow_right (by decide) small
    have literal : hexLiteral (fmtHex (disassemble address readByte).target.toNat 4) =
        hexLiteral (fmtHex (disassemble there readThere).target.toNat 4) := by
      unfold operandPart operandOf at operands
      rw [first, second, if_pos (Or.inl rfl), if_pos (Or.inl rfl), if_pos rfl, if_pos rfl]
        at operands
      dsimp only at operands
      rw [if_neg (fun ne => ne rfl), if_neg (fun ne => ne rfl)] at operands
      exact List.append_cancel_left operands
    have numbers := (@hexLiteral_inj [] [] _ _ (by rw [fmtHex_length, fmtHex_length])
      literal).2
    rw [number, number'] at numbers
    exact sameCode_of_parts mnemonic (names.trans names'.symm)
      (fmtHex_inj (bound.trans_le room) (bound'.trans_le room) numbers)
  | false =>
    rw [target] at targets second
    rw [targets] at first
    have converted : convertOperands (disassemble address readByte).operands =
        convertOperands (disassemble there readThere).operands := by
      have empty : convertOperands [] = [] := by decide
      have part : ∀ di : DisassembledInstruction, di.analyzed.hasTarget = false →
          operandPart di.analyzed =
            if di.operands = [] then [] else 0x09 :: convertOperands di.operands := by
        intro di straight
        unfold operandPart
        rw [operandOf_plain straight, straight]
        by_cases none' : di.operands = []
        · rw [if_pos none']
          exact if_neg (not_or.mpr ⟨Bool.false_ne_true, fun some' => some' none'⟩)
        · rw [if_neg none']
          exact if_pos (Or.inr none')
      rw [part _ first, part _ second] at operands
      split_ifs at operands with none' none'' none''
      · rw [none', none'']
      · exact (List.cons.inj operands).2
    rw [disassemble_operands, disassemble_operands] at converted
    by_cases bare : (formatOf (readThere there)).digits = 0
    · have bareHere := digits.trans bare
      rw [bareHere, bare] at converted
      have noDigits : ∀ value, fmtHex value 0 = [] := fun _ => rfl
      rw [noDigits, noDigits, List.append_nil, List.append_nil, convert_names _ bareHere,
        convert_names _ bare] at converted
      rw [bare, Nat.pow_zero] at bound bound'
      exact sameCode_of_parts mnemonic
        (lowerText_inj (notLower_tightNames _) (notLower_tightNames _) converted) (by omega)
    · have some' : (formatOf (readByte address)).digits ≠ 0 := fun none' => bare (digits ▸ none')
      rw [convert_number _ _ some', convert_number _ _ bare, digits] at converted
      have lengths : (lowerText (fmtHex (operandValue address readByte)
          (formatOf (readThere there)).digits)).length =
            (lowerText (fmtHex (operandValue there readThere)
              (formatOf (readThere there)).digits)).length := by
        rw [lowerText_length, lowerText_length, fmtHex_length, fmtHex_length]
      obtain ⟨names, numbers⟩ := hexLiteral_inj lengths converted
      exact sameCode_of_parts mnemonic
        (lowerText_inj (notLower_tightNames _) (notLower_tightNames _) names)
        (lowerText_fmtHex_inj bound bound' numbers)

/-- All eight opcodes are spelled `nop`. -/
theorem emitPlain_of_isNop (nop : isNop (readByte address) = true) :
    emitPlain (disassemble address readByte).analyzed = ascii "\tnop\n" := by
  obtain ⟨mnemonic, format⟩ := format_of_isNop (readByte address) nop
  have name : (disassemble address readByte).analyzed.mnemonic = ascii "NOP" := mnemonic
  have straight : (disassemble address readByte).analyzed.hasTarget = false := by
    have target := hasTarget_eq address readByte
    rw [format] at target
    exact target
  have operands : (disassemble address readByte).analyzed.operands = [] := by
    have names := disassemble_operands address readByte
    rw [format] at names
    exact names
  have text : [0x09] ++ lowerText (ascii "NOP") ++ [] ++ [0x0a] = ascii "\tnop\n" := by decide
  unfold emitPlain emitInstruction
  rw [name, straight, operands, ← text,
    if_neg (not_or.mpr ⟨Bool.false_ne_true, fun some' => some' rfl⟩)]

/-- No other bytes are spelled like an instruction exactly when its opcode is none of the eight of
`nop`. -/
theorem emitPlain_injective_iff (address : Word) (readByte : DisasmReadFn) :
    (∀ there readThere, emitPlain (disassemble there readThere).analyzed =
        emitPlain (disassemble address readByte).analyzed →
      (disassemble there readThere).encoded = (disassemble address readByte).encoded) ↔
        isNop (readByte address) = false := by
  constructor
  · intro injective
    by_contra nop
    rw [Bool.not_eq_false] at nop
    -- Another `nop`: 08h for 00h, and 00h for any other.
    have another : ∃ op : Byte, isNop op = true ∧ op ≠ readByte address := by
      by_cases zero : readByte address = 0
      · exact ⟨0x08, by decide, by rw [zero]; decide⟩
      · exact ⟨0, by decide, fun same => zero same.symm⟩
    obtain ⟨op, other, unlike⟩ := another
    have spelled := (@emitPlain_of_isNop 0 (fun _ => op) other).trans
      (emitPlain_of_isNop nop).symm
    exact unlike (parts_of_encoded (injective 0 (fun _ => op) spelled)).1
  · intro plain there readThere same
    rcases sameCode_of_emitPlain same with encoded | ⟨-, nop⟩
    · exact encoded
    · have wrong : isNop (readByte address) = true := nop
      rw [plain] at wrong
      cases wrong

/-- The opcodes 00h and 08h are both spelled `nop`. -/
theorem emitPlain_nop : ¬∀ (address there : Word) (readByte readThere : DisasmReadFn),
    emitPlain (disassemble there readThere).analyzed =
        emitPlain (disassemble address readByte).analyzed →
      (disassemble there readThere).encoded = (disassemble address readByte).encoded := by
  intro injective
  have spelled := (@emitPlain_of_isNop 0 (fun _ => 0x08) (by decide)).trans
    (@emitPlain_of_isNop 0 (fun _ => 0) (by decide)).symm
  exact absurd (injective 0 0 (fun _ => 0) (fun _ => 0x08) spelled) (by decide)

end Spelled

end AsmExporter

end VectorDebugger

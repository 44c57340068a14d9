import VectorDebugger.Library.Collect
import VectorDebugger.Debugger.AsmText
import VectorDebugger.Debugger.LinearSweep
import VectorDebugger.Debugger.RangeChecks

/-!
# Searches in memory

`findBytecodeSequence` compares bytes, `findImmediateInRange` the numbers in the text of operands.
Two kinds of numbers stand in the text that the encoding does not have after its opcode: the vector
of a restart and the byte that is shown for an opcode without a name.
-/

namespace VectorDebugger

namespace AgentLimits

/-- `MAX_BYTECODE_PATTERN_LENGTH`. -/
def maxBytecodePatternLength : Nat := 32

/-- `MAX_SEARCH_MATCHES_HARD`. -/
def maxSearchMatchesHard : Nat := 10000

end AgentLimits

/-- `ByteSequenceSearchResult`. -/
structure ByteSequenceSearchResult where
  /-- `rangeStart`. -/
  rangeStart : Word
  /-- `rangeEnd`, inclusive. -/
  rangeEnd : Word
  /-- `scannedBytes`. -/
  scannedBytes : Nat
  /-- `addresses`. -/
  addresses : List Word
deriving DecidableEq, Repr

/-- `ImmediateMatch`. -/
structure ImmediateMatch where
  /-- `address`. -/
  address : Word
  /-- `mnemonic`. -/
  mnemonic : Text
  /-- `operands`. -/
  operands : Text
  /-- `bytes`. -/
  bytes : List Byte
deriving DecidableEq, Repr

/-- `ImmediateSearchResult`. -/
structure ImmediateSearchResult where
  /-- `rangeStart`. -/
  rangeStart : Word
  /-- `rangeEnd`, inclusive. -/
  rangeEnd : Word
  /-- `value`. -/
  value : Word
  /-- `matches`. -/
  hits : List ImmediateMatch
deriving DecidableEq, Repr

/-- The byte of the pattern matches anything. -/
def wildcardAt (mask : List Byte) (k : Nat) : Bool := !mask.isEmpty && mask.getD k 0 == 0

/-- The pattern matches at an offset. -/
def patternAt (buf pattern mask : List Byte) (i : Nat) : Bool :=
  (List.range pattern.length).all fun k =>
    wildcardAt mask k || buf.getD (i + k) 0 == pattern.getD k 0

/-- The digits of a token, after those read so far. -/
def hexTokenValue : Nat → Text → Option Nat
  | v, [] => some v
  | v, c :: rest =>
    match hexValue c with
    | some d => hexTokenValue (v <<< 4 ||| d) rest
    | none => none

/-- `parseHexToken`. -/
def parseHexToken (tok : Text) : Option Word :=
  if tok.length ≠ 2 ∧ tok.length ≠ 4 then none
  else (hexTokenValue 0 tok).map (BitVec.ofNat 16)

/-- The operands between commas. -/
def operandTokens : Text → List Text
  | [] => [[]]
  | c :: rest =>
    if c = 0x2c then [] :: operandTokens rest else (operandTokens rest).modifyHead (c :: ·)

/-- A token without the blanks around it. -/
def trimBlanks (tok : Text) : Text :=
  ((tok.dropWhile (· = 0x20)).reverse.dropWhile (· = 0x20)).reverse

/-- One of the operands is a number with the value. -/
def operandHit (operands : Text) (value : Word) : Bool :=
  (operandTokens operands).any fun tok =>
    !(trimBlanks tok).isEmpty && parseHexToken (trimBlanks tok) == some value

/-- The match made of an instruction. -/
def DisassembledRangeInstruction.immediateMatch (inst : DisassembledRangeInstruction) :
    ImmediateMatch where
  address := inst.address
  mnemonic := inst.mnemonic
  operands := inst.operands
  bytes := inst.bytes

namespace AgentApi

variable {δ : Type}

/-- `AgentApi::findBytecodeSequence`. -/
def findBytecodeSequence (api : AgentApi δ) (rangeStart rangeEnd : Word)
    (pattern mask : List Byte) (maxMatches : Nat) : AgentApiResult ByteSequenceSearchResult :=
  if pattern = [] then .fail .invalidArgument "pattern must not be empty"
  else if pattern.length > AgentLimits.maxBytecodePatternLength then
    .fail .invalidArgument "pattern length exceeds maximum (32)"
  else if mask ≠ [] ∧ mask.length ≠ pattern.length then
    .fail .invalidArgument "mask must be empty or have the same length as pattern"
  else if rangeEnd < rangeStart then .fail .invalidRange "range_end must be >= range_start"
  else if maxMatches = 0 ∨ maxMatches > AgentLimits.maxSearchMatchesHard then
    .fail .invalidArgument "maxMatches must be 1..10000"
  else
    let scanLen := rangeEnd.toNat - rangeStart.toNat + 1
    (api.readMemory rangeStart (BitVec.ofNat 64 scanLen)).bind fun buf =>
      match Collect.collect (patternAt buf pattern mask) maxMatches []
        (List.range (scanLen + 1 - pattern.length)) with
      | none =>
        AgentApiResult.fail .limitExceeded ("more than " ++ toString maxMatches ++
          " matches; narrow the range or lower expectations")
      | some offsets =>
        Except.ok
          { rangeStart
            rangeEnd
            scannedBytes := scanLen
            addresses := offsets.map fun i => rangeStart + BitVec.ofNat 16 i }

/-- `AgentApi::findImmediateInRange`. -/
def findImmediateInRange (api : AgentApi δ) (rangeStart rangeEnd value : Word)
    (maxMatches : Nat) : AgentApi δ × AgentApiResult ImmediateSearchResult :=
  if rangeEnd < rangeStart then (api, .fail .invalidRange "range_end must be >= range_start")
  else if maxMatches = 0 ∨ maxMatches > AgentLimits.maxSearchMatchesHard then
    (api, .fail .invalidArgument "maxMatches must be 1..10000")
  else
    let sweep := api.linearDisassemble rangeStart (rangeEnd.toNat - rangeStart.toNat + 1)
    (sweep.1,
      match Collect.collect (fun inst : DisassembledRangeInstruction =>
          operandHit inst.operands value) maxMatches [] sweep.2.instructions with
      | none =>
        AgentApiResult.fail .limitExceeded ("more than " ++ toString maxMatches ++
          " matches; narrow the range")
      | some found =>
        .ok { rangeStart, rangeEnd, value, hits := found.map (·.immediateMatch) })

end AgentApi

/-! ### Patterns -/

/-- The whole pattern lies between two addresses and matches where the mask says so. -/
def PatternMatches (memory : Word → Byte) (rangeStart rangeEnd : Word) (pattern mask : List Byte)
    (addr : Word) : Prop :=
  rangeStart ≤ addr ∧ addr.toNat + pattern.length ≤ rangeEnd.toNat + 1 ∧
    ∀ k < pattern.length, wildcardAt mask k = true ∨
      memory (addr + BitVec.ofNat 16 k) = pattern.getD k 0

/-- The code accepts the pattern, the mask and the limit. -/
def SearchAccepted (pattern mask : List Byte) (maxMatches : Nat) : Prop :=
  pattern.length ≤ AgentLimits.maxBytecodePatternLength ∧
    (mask = [] ∨ mask.length = pattern.length) ∧
      0 < maxMatches ∧ maxMatches ≤ AgentLimits.maxSearchMatchesHard

/-- The answer has all matches in order, or says that there are more than the limit. -/
def SearchExact (memory : Word → Byte) (rangeStart rangeEnd : Word) (pattern mask : List Byte)
    (maxMatches : Nat) (answer : AgentApiResult ByteSequenceSearchResult) : Prop :=
  ∃ addresses : List Word, addresses.Pairwise (· < ·) ∧
    (∀ addr, addr ∈ addresses ↔ PatternMatches memory rangeStart rangeEnd pattern mask addr) ∧
    if addresses.length > maxMatches then
      ∃ message, answer = .error (.limitExceeded, message)
    else
      answer = .ok
        { rangeStart
          rangeEnd
          scannedBytes := rangeEnd.toNat - rangeStart.toNat + 1
          addresses }

/-- The bytes that `readMemory` returns. -/
theorem readMemory_range {δ : Type} (api : AgentApi δ) {rangeStart rangeEnd : Word}
    (bound : rangeStart ≤ rangeEnd) :
    api.readMemory rangeStart (BitVec.ofNat 64 (rangeEnd.toNat - rangeStart.toNat + 1)) =
      .ok ((List.range (rangeEnd.toNat - rangeStart.toNat + 1)).map fun i =>
        api.backend.target.readMemoryRaw (rangeStart + BitVec.ofNat 16 i)) := by
  have low := BitVec.le_def.mp bound
  have high := rangeEnd.isLt
  have length : (BitVec.ofNat 64 (rangeEnd.toNat - rangeStart.toNat + 1)).toNat =
      rangeEnd.toNat - rangeStart.toNat + 1 := by
    rw [BitVec.toNat_ofNat]
    omega
  have fits : ¬ AgentApi.endAddr rangeStart
      (BitVec.ofNat 64 (rangeEnd.toNat - rangeStart.toNat + 1)) > 0x10000 := by
    rw [endAddr_le_iff, length]
    omega
  unfold AgentApi.readMemory
  rw [if_neg fits, length]

/-- A match in the bytes of the range is one in memory. -/
theorem patternAt_iff (memory : Word → Byte) (rangeStart : Word) {scanLen i : Nat}
    {pattern : List Byte} (mask : List Byte) (fits : i + pattern.length ≤ scanLen) :
    patternAt ((List.range scanLen).map fun j => memory (rangeStart + BitVec.ofNat 16 j)) pattern
        mask i = true ↔
      ∀ k < pattern.length, wildcardAt mask k = true ∨
        memory (rangeStart + BitVec.ofNat 16 i + BitVec.ofNat 16 k) = pattern.getD k 0 := by
  unfold patternAt
  rw [List.all_eq_true]
  have byte : ∀ k < pattern.length,
      ((List.range scanLen).map fun j => memory (rangeStart + BitVec.ofNat 16 j)).getD (i + k) 0 =
        memory (rangeStart + BitVec.ofNat 16 i + BitVec.ofNat 16 k) := by
    intro k inside
    have there : i + k < scanLen := by omega
    rw [List.getD_eq_getElem?_getD, List.getElem?_map, List.getElem?_range there, Option.map_some,
      Option.getD_some, BitVec.ofNat_add, BitVec.add_assoc]
  constructor
  · intro all k inside
    have here := all k (List.mem_range.mpr inside)
    rw [Bool.or_eq_true, beq_iff_eq, byte k inside] at here
    exact here
  · intro all k listed
    have inside := List.mem_range.mp listed
    rw [Bool.or_eq_true, beq_iff_eq, byte k inside]
    exact all k inside

/-- Offsets in order make addresses in order. -/
theorem pairwise_addresses {rangeStart : Word} {offsets : List Nat} (count : Nat)
    (ordered : offsets.Pairwise (· < ·)) (small : ∀ i ∈ offsets, i < count)
    (fits : rangeStart.toNat + count ≤ 0x10000) :
    (offsets.map fun i => rangeStart + BitVec.ofNat 16 i).Pairwise (· < ·) := by
  rw [List.pairwise_map]
  refine ordered.imp_of_mem fun {i j} first second before => ?_
  have one := small i first
  have two := small j second
  rw [BitVec.lt_def, BitVec.toNat_add, BitVec.toNat_add, BitVec.toNat_ofNat, BitVec.toNat_ofNat]
  omega

/-- An accepted search finds every match. -/
theorem findBytecodeSequence_exact {δ : Type} (api : AgentApi δ) {rangeStart rangeEnd : Word}
    (bound : rangeStart ≤ rangeEnd) {pattern mask : List Byte} (some' : pattern ≠ [])
    {maxMatches : Nat} (accepted : SearchAccepted pattern mask maxMatches) :
    SearchExact api.backend.target.readMemoryRaw rangeStart rangeEnd pattern mask maxMatches
      (api.findBytecodeSequence rangeStart rangeEnd pattern mask maxMatches) := by
  obtain ⟨short, sized, positive, most⟩ := accepted
  have low := BitVec.le_def.mp bound
  have high := rangeEnd.isLt
  have long : 0 < pattern.length := List.length_pos_iff.mpr some'
  have noMask : ¬ (mask ≠ [] ∧ mask.length ≠ pattern.length) := by
    rintro ⟨given, other⟩
    exact sized.elim given other
  have noLimit : ¬ (maxMatches = 0 ∨ maxMatches > AgentLimits.maxSearchMatchesHard) := by omega
  set scanLen := rangeEnd.toNat - rangeStart.toNat + 1 with scanning
  set buf := (List.range scanLen).map fun i =>
    api.backend.target.readMemoryRaw (rangeStart + BitVec.ofNat 16 i) with reading
  set offsets := (List.range (scanLen + 1 - pattern.length)).filter (patternAt buf pattern mask)
    with found
  have answered : api.findBytecodeSequence rangeStart rangeEnd pattern mask maxMatches =
      match (if offsets.length > maxMatches then none else some offsets : Option (List Nat)) with
      | none =>
        AgentApiResult.fail .limitExceeded ("more than " ++ toString maxMatches ++
          " matches; narrow the range or lower expectations")
      | some offsets =>
        Except.ok
          { rangeStart
            rangeEnd
            scannedBytes := scanLen
            addresses := offsets.map fun i => rangeStart + BitVec.ofNat 16 i } := by
    unfold AgentApi.findBytecodeSequence
    rw [if_neg some', if_neg (Nat.not_lt.mpr short), if_neg noMask,
      if_neg (BitVec.not_lt.mpr bound), if_neg noLimit]
    dsimp only
    rw [← scanning, readMemory_range api bound, ← scanning, ← reading, found, ← Collect.collect_nil]
    rfl
  have small : ∀ i ∈ offsets, i < scanLen + 1 - pattern.length := fun i listed =>
    List.mem_range.mp (List.mem_filter.mp listed).1
  refine ⟨offsets.map fun i => rangeStart + BitVec.ofNat 16 i, ?_, fun addr => ?_, ?_⟩
  · exact pairwise_addresses (scanLen + 1 - pattern.length)
      (List.pairwise_lt_range.filter _) small (by omega)
  · rw [List.mem_map]
    constructor
    · rintro ⟨i, listed, rfl⟩
      have inside := small i listed
      have place : (rangeStart + BitVec.ofNat 16 i).toNat = rangeStart.toNat + i := by
        rw [BitVec.toNat_add, BitVec.toNat_ofNat]
        omega
      refine ⟨?_, ?_, ?_⟩
      · rw [BitVec.le_def, place]
        omega
      · rw [place]
        omega
      · exact (patternAt_iff _ _ _ (by omega)).mp (List.mem_filter.mp listed).2
    · rintro ⟨above, below, same⟩
      have above' := BitVec.le_def.mp above
      have place : rangeStart + BitVec.ofNat 16 (addr.toNat - rangeStart.toNat) = addr := by
        apply BitVec.eq_of_toNat_eq
        rw [BitVec.toNat_add, BitVec.toNat_ofNat]
        omega
      refine ⟨addr.toNat - rangeStart.toNat, List.mem_filter.mpr ⟨List.mem_range.mpr ?_, ?_⟩, place⟩
      · omega
      · refine (patternAt_iff _ _ _ (by omega)).mpr ?_
        rw [place]
        exact same
  · rw [answered, List.length_map]
    split
    · exact ⟨_, rfl⟩
    · rfl

/-- A search over a range for a pattern finds every match, or is refused for its arguments. -/
theorem findBytecodeSequence_spec {δ : Type} (api : AgentApi δ) (rangeStart rangeEnd : Word)
    (pattern mask : List Byte) (maxMatches : Nat) (bound : rangeStart ≤ rangeEnd)
    (some' : pattern ≠ []) :
    (SearchAccepted pattern mask maxMatches →
      SearchExact api.backend.target.readMemoryRaw rangeStart rangeEnd pattern mask maxMatches
        (api.findBytecodeSequence rangeStart rangeEnd pattern mask maxMatches)) ∧
      (¬ SearchAccepted pattern mask maxMatches →
        ∃ message, api.findBytecodeSequence rangeStart rangeEnd pattern mask maxMatches =
          .error (.invalidArgument, message)) := by
  refine ⟨findBytecodeSequence_exact api bound some', fun refused => ?_⟩
  unfold AgentApi.findBytecodeSequence
  rw [if_neg some']
  split
  · exact ⟨_, rfl⟩
  · rename_i short
    split
    · exact ⟨_, rfl⟩
    · rename_i sized
      rw [if_neg (BitVec.not_lt.mpr bound)]
      split
      · exact ⟨_, rfl⟩
      · rename_i limit
        refine absurd ⟨Nat.not_lt.mp short, ?_, ?_, ?_⟩ refused
        · by_cases none' : mask = []
          · exact Or.inl none'
          · exact Or.inr (not_not.mp (not_and.mp sized none'))
        · omega
        · omega

theorem findBytecodeSequence_spec_whole :
    (SearchAccepted [0] [] 10 →
      SearchExact AgentApi.started.backend.target.readMemoryRaw 0 0xffff [0] [] 10
        (AgentApi.started.findBytecodeSequence 0 0xffff [0] [] 10)) ∧
      (¬ SearchAccepted [0] [] 10 →
        ∃ message, AgentApi.started.findBytecodeSequence 0 0xffff [0] [] 10 =
          .error (.invalidArgument, message)) :=
  findBytecodeSequence_spec AgentApi.started 0 0xffff [0] [] 10 (by decide) (by decide)

/-- A limit of zero is refused, although nothing matches. -/
theorem findBytecodeSequence_zeroLimit : ¬ ∀ (api : AgentApi Unit) (rangeStart rangeEnd : Word)
    (pattern mask : List Byte) (maxMatches : Nat), rangeStart ≤ rangeEnd → pattern ≠ [] →
      SearchExact api.backend.target.readMemoryRaw rangeStart rangeEnd pattern mask maxMatches
        (api.findBytecodeSequence rangeStart rangeEnd pattern mask maxMatches) := by
  intro exact'
  have refused : AgentApi.started.findBytecodeSequence 0 0 [1] [] 0 =
      .fail .invalidArgument "maxMatches must be 1..10000" := rfl
  obtain ⟨addresses, -, -, answer⟩ := exact' AgentApi.started 0 0 [1] [] 0 (by decide) (by decide)
  rw [refused] at answer
  split at answer
  · obtain ⟨message, same⟩ := answer
    have codes : ErrorCode.invalidArgument = .limitExceeded :=
      congrArg Prod.fst (Except.error.inj same)
    exact absurd codes (by decide)
  · cases answer

/-! ### Numbers in operands -/

section Tokens

open Disassembler

theorem operandTokens_single {word : Text} (plain : (0x2c : Byte) ∉ word) :
    operandTokens word = [word] := by
  induction word with
  | nil => rfl
  | cons c word inductionHypothesis =>
    rw [List.mem_cons, not_or] at plain
    unfold operandTokens
    rw [if_neg (Ne.symm plain.1), inductionHypothesis plain.2]
    rfl

theorem operandTokens_append {word : Text} (plain : (0x2c : Byte) ∉ word) (rest : Text) :
    operandTokens (word ++ 0x2c :: rest) = word :: operandTokens rest := by
  induction word with
  | nil => rfl
  | cons c word inductionHypothesis =>
    rw [List.mem_cons, not_or] at plain
    show (if c = 0x2c then _ else (operandTokens (word ++ 0x2c :: rest)).modifyHead (c :: ·)) = _
    rw [if_neg (Ne.symm plain.1), inductionHypothesis plain.2]
    rfl

theorem dropWhile_plain {tok : Text} (plain : (0x20 : Byte) ∉ tok) :
    tok.dropWhile (· = 0x20) = tok := by
  cases tok with
  | nil => rfl
  | cons c rest =>
    have other : ¬ (decide (c = 0x20)) = true := by
      rw [decide_eq_true_eq]
      exact fun same => plain (same ▸ List.mem_cons_self)
    rw [List.dropWhile_cons, if_neg other]

/-- A token without blanks is left alone, with one before it that is removed. -/
theorem trimBlanks_plain {tok : Text} (plain : (0x20 : Byte) ∉ tok) :
    trimBlanks tok = tok ∧ trimBlanks (0x20 :: tok) = tok := by
  have back : (0x20 : Byte) ∉ tok.reverse := fun listed => plain (List.mem_reverse.mp listed)
  have first : (0x20 :: tok).dropWhile (· = (0x20 : Byte)) = tok.dropWhile (· = 0x20) := rfl
  unfold trimBlanks
  rw [first, dropWhile_plain plain, dropWhile_plain back, List.reverse_reverse]
  exact ⟨rfl, rfl⟩

/-- A text of digits is read as the number that a scan of it gives. -/
theorem hexTokenValue_of_digits {tok : Text} : ∀ {v : Nat} {given : Bool} {number : Nat},
    (∀ c ∈ tok, (hexValue c).isSome = true) → scanDigits v given tok = some number →
      hexTokenValue v tok = some number := by
  induction tok with
  | nil =>
    intro v given number _ scanned
    unfold scanDigits at scanned
    split at scanned
    · exact scanned
    · cases scanned
  | cons c rest inductionHypothesis =>
    intro v given number digits scanned
    have digit := digits c List.mem_cons_self
    unfold scanDigits at scanned
    unfold hexTokenValue
    cases value : hexValue c with
    | none => rw [value] at digit; cases digit
    | some d =>
      have small : d < 2 ^ 4 := by
        unfold hexValue at value
        have large := c.isLt
        split_ifs at value with first second third
        · obtain ⟨above, below⟩ := first
          rw [← Option.some.inj value]
          bv_omega
        · obtain ⟨above, below⟩ := second
          rw [← Option.some.inj value]
          bv_omega
        · obtain ⟨above, below⟩ := third
          rw [← Option.some.inj value]
          bv_omega
      have sum : v <<< 4 ||| d = 16 * v + d := by
        rw [← Nat.shiftLeft_add_eq_or_of_lt small, Nat.shiftLeft_eq, Nat.mul_comm]
      rw [value] at scanned
      dsimp only at scanned ⊢
      rw [sum]
      exact inductionHypothesis (fun c listed => digits c (List.mem_cons_of_mem _ listed)) scanned

/-- A formatted number is read back. -/
theorem parseHexToken_fmtHex {value digits : Nat} (width : digits = 2 ∨ digits = 4)
    (small : value < 16 ^ digits) :
    parseHexToken (fmtHex value digits) = some (BitVec.ofNat 16 value) := by
  have sized : ¬ ((fmtHex value digits).length ≠ 2 ∧ (fmtHex value digits).length ≠ 4) := by
    rw [fmtHex_length]
    omega
  have hex : ∀ c ∈ fmtHex value digits, (hexValue c).isSome = true :=
    forall_fmtHex (by decide) value digits
  have scanned := scanDigits_fmtHex digits value false 0 small (by omega)
  unfold parseHexToken
  rw [if_neg sized, hexTokenValue_of_digits hex scanned, Nat.zero_mul, Nat.zero_add]
  rfl

/-- No token of operands without a number is a number. -/
theorem bareNames_silent : ∀ names ∈ bareNames, ∀ tok ∈ operandTokens names,
    parseHexToken (trimBlanks tok) = none := by
  decide

/-- A name before a number has no comma, and is no number. -/
theorem registers_silent : ∀ name ∈ registerNames ++ pairNames, (0x2c : Byte) ∉ name ∧
    parseHexToken (trimBlanks name) = none := by
  decide

/-- The number at the end of the operands is the one that is compared. -/
theorem operandHit_iff (address : Word) (readByte : DisasmReadFn) (value : Word) :
    operandHit (disassemble address readByte).operands value = true ↔
      (formatOf (readByte address)).digits ≠ 0 ∧
        operandValue address readByte = value.toNat := by
  rw [disassemble_operands]
  set op := readByte address with opcode
  set number := fmtHex (operandValue address readByte) (formatOf op).digits with digits
  unfold operandHit
  rw [List.any_eq_true]
  by_cases bare : (formatOf op).digits = 0
  · have none' : number = [] := by
      rw [digits, bare]
      rfl
    rw [none', List.append_nil]
    refine iff_of_false ?_ fun both => both.1 bare
    rintro ⟨tok, listed, hit⟩
    rw [bareNames_silent _ (namesOf_bare op bare) tok listed, Bool.and_eq_true] at hit
    cases hit.2
  · have width : (formatOf op).digits = 2 ∨ (formatOf op).digits = 4 := by
      cases format : formatOf op <;> rw [format] at bare <;>
        first | exact Or.inl rfl | exact Or.inr rfl | exact absurd rfl bare
    have small := operandValue_lt address readByte
    have noComma : (0x2c : Byte) ∉ number := fun listed =>
      forall_fmtHex (P := fun c => c ≠ 0x2c) (by decide) _ _ _ listed rfl
    have noBlank : (0x20 : Byte) ∉ number := fun listed =>
      forall_fmtHex (P := fun c => c ≠ 0x20) (by decide) _ _ _ listed rfl
    have some' : number.isEmpty = false := by
      rw [List.isEmpty_eq_false_iff, ← List.length_pos_iff, digits, fmtHex_length]
      omega
    have read : parseHexToken number = some (BitVec.ofNat 16 (operandValue address readByte)) :=
      parseHexToken_fmtHex width small
    have bounded : operandValue address readByte < 2 ^ 16 := by
      rcases width with two | four
      · rw [← opcode, two] at small
        omega
      · rw [← opcode, four] at small
        omega
    have compared : (parseHexToken number == some value) = true ↔
        operandValue address readByte = value.toNat := by
      rw [read, beq_iff_eq, Option.some.injEq]
      constructor
      · intro same
        rw [← same, BitVec.toNat_ofNat, Nat.mod_eq_of_lt bounded]
      · intro same
        rw [same, BitVec.ofNat_toNat, BitVec.setWidth_eq]
    rcases namesOf_number op bare with none' | ⟨name, known, split⟩
    · rw [none', List.nil_append, operandTokens_single noComma]
      constructor
      · rintro ⟨tok, listed, hit⟩
        rw [List.mem_singleton.mp listed, (trimBlanks_plain noBlank).1, Bool.and_eq_true] at hit
        exact ⟨bare, compared.mp hit.2⟩
      · rintro ⟨-, same⟩
        refine ⟨number, List.mem_singleton_self _, ?_⟩
        rw [(trimBlanks_plain noBlank).1, some', compared.mpr same]
        rfl
    · obtain ⟨noComma', silent⟩ := registers_silent name known
      have blankComma : (0x2c : Byte) ∉ (0x20 : Byte) :: number := by
        rw [List.mem_cons, not_or]
        exact ⟨by decide, noComma⟩
      have tokens : operandTokens (namesOf op (formatOf op) ++ number) =
          [name, 0x20 :: number] := by
        have shown : name ++ [0x2c, 0x20] ++ number = name ++ 0x2c :: 0x20 :: number := by simp
        rw [split, shown, operandTokens_append noComma', operandTokens_single blankComma]
      rw [tokens]
      constructor
      · rintro ⟨tok, listed, hit⟩
        rcases List.mem_cons.mp listed with rfl | last
        · rw [silent, Bool.and_eq_true] at hit
          cases hit.2
        · rw [List.mem_singleton.mp last, (trimBlanks_plain noBlank).2, Bool.and_eq_true] at hit
          exact ⟨bare, compared.mp hit.2⟩
      · rintro ⟨-, same⟩
        refine ⟨0x20 :: number, List.mem_cons_of_mem _ (List.mem_singleton_self _), ?_⟩
        rw [(trimBlanks_plain noBlank).2, some', compared.mpr same]
        rfl

end Tokens

/-! ### Immediates -/

namespace DisassembledRangeInstruction

/-- The bytes after the opcode are the value. -/
def hasOperand (inst : DisassembledRangeInstruction) (value : Word) : Bool :=
  match inst.bytes with
  | [_, low] => low.setWidth 16 == value
  | [_, low, high] => wordOf low high == value
  | _ => false

/-- The text shows the value although no byte after the opcode has it: the vector of a restart, or
an opcode that the disassembler does not name. -/
def showsOther (inst : DisassembledRangeInstruction) (value : Word) : Bool :=
  let opcode := inst.bytes.headD 0
  isRstOpcode opcode && XrefScan.restartTarget opcode == value ||
    Disassembler.formatOf opcode == .db && opcode.setWidth 16 == value

end DisassembledRangeInstruction

open Disassembler in
/-- The restarts have the format, and their vector is the number that is shown. -/
theorem restart_spec {op : Byte} (restart : isRstOpcode op = true) :
    formatOf op = .rst ∧ (XrefScan.restartTarget op).toNat = middleBits op * 8 := by
  unfold isRstOpcode at restart
  have listed := List.contains_iff_mem.mp restart
  simp only [List.mem_cons, List.not_mem_nil, or_false] at listed
  rcases listed with rfl | rfl | rfl | rfl | rfl | rfl | rfl | rfl
  all_goals exact ⟨by decide, by decide⟩

open Disassembler in
/-- A restart in one table is one in the other. -/
theorem isRstOpcode_iff (op : Byte) : isRstOpcode op = true ↔ formatOf op = .rst := by
  refine ⟨fun restart => (restart_spec restart).1, fun format => ?_⟩
  have all : ∀ n < 8, isRstOpcode (BitVec.ofNat 8 (0xc7 + n * 8)) = true := by decide
  have bits : middleBits op < 8 := by
    unfold middleBits
    rw [BitVec.toNat_and]
    exact Nat.lt_succ_of_le Nat.and_le_right
  rw [(row_spec op).restart format]
  exact all _ bits

open Disassembler in
/-- An opcode with bytes after it has a name and is no restart. -/
theorem format_of_long {op : Byte} (long : getLength op ≠ 1) :
    formatOf op ≠ .db ∧ formatOf op ≠ .rst := by
  rcases (row_spec op).length with ⟨-, one⟩ | ⟨named, -⟩
  · exact absurd one long
  · exact named

open Disassembler in
/-- An instruction is a hit for the bytes after its opcode, or for what its text shows instead. -/
theorem operandHit_rangeEntry (address : Word) (readByte : DisasmReadFn) (value : Word) :
    operandHit (disassemble address readByte).rangeEntry.operands value =
      ((disassemble address readByte).rangeEntry.hasOperand value ||
        (disassemble address readByte).rangeEntry.showsOther value) := by
  set op := readByte address with opcode
  have number := operandHit_iff address readByte value
  rw [← opcode] at number
  have shown : (disassemble address readByte).rangeEntry.showsOther value =
      (isRstOpcode op && XrefScan.restartTarget op == value ||
        formatOf op == .db && op.setWidth 16 == value) := by
    have first : (disassemble address readByte).rangeEntry.bytes.headD 0 = op := by
      have positive := CodeAnalysis.getLength_pos op
      unfold DisassembledInstruction.rangeEntry disassemble
      dsimp only
      rw [← opcode]
      cases length : getLength op with
      | zero => omega
      | succ more => rfl
    unfold DisassembledRangeInstruction.showsOther
    rw [first]
  rw [Bool.eq_iff_iff, shown, Bool.or_eq_true, Bool.or_eq_true, Bool.and_eq_true,
    Bool.and_eq_true, beq_iff_eq, beq_iff_eq, beq_iff_eq, isRstOpcode_iff]
  refine number.trans ?_
  unfold operandValue
  rw [← opcode]
  have bytes : (disassemble address readByte).rangeEntry.bytes =
      [op, (operandBytes address (getLength op) readByte).1,
        (operandBytes address (getLength op) readByte).2].take (getLength op) := rfl
  unfold DisassembledRangeInstruction.hasOperand
  rw [bytes]
  rcases length_of_format op with ⟨kind, length⟩ | ⟨digits, length, word⟩ | ⟨digits, length, word⟩
  · rw [length]
    rcases kind with data | restart | bare
    · rw [data]
      have value' : valueOf op (decodedByte address readByte) (decodedWord address readByte) .db =
          value.toNat ↔ op.setWidth 16 = value := by
        rw [← BitVec.toNat_inj, BitVec.toNat_setWidth]
        have small := op.isLt
        show op.toNat = value.toNat ↔ _
        omega
      rw [value']
      simp [OpFormat.digits]
    · rw [restart]
      have value' : valueOf op (decodedByte address readByte) (decodedWord address readByte) .rst =
          value.toNat ↔ XrefScan.restartTarget op = value := by
        rw [← BitVec.toNat_inj, (restart_spec ((isRstOpcode_iff op).mpr restart)).2]
        rfl
      rw [value']
      simp [OpFormat.digits]
    · have notData : formatOf op ≠ .db := by
        intro data
        rw [data] at bare
        cases bare
      have notRestart : formatOf op ≠ .rst := by
        intro restart
        rw [restart] at bare
        cases bare
      simp [bare, notData, notRestart]
  · obtain ⟨notData, notRestart⟩ := @format_of_long op (by omega)
    have value' : (decodedByte address readByte).toNat = value.toNat ↔
        (decodedByte address readByte).setWidth 16 = value := by
      rw [← BitVec.toNat_inj, BitVec.toNat_setWidth]
      have small := (decodedByte address readByte).isLt
      omega
    rw [word, value', length]
    unfold decodedByte
    rw [← opcode, length]
    simp [digits, notData, notRestart]
  · obtain ⟨notData, notRestart⟩ := @format_of_long op (by omega)
    have value' : (decodedWord address readByte).toNat = value.toNat ↔
        decodedWord address readByte = value := BitVec.toNat_inj
    rw [word, value', length]
    unfold decodedWord
    rw [← opcode, length]
    simp [digits, notData, notRestart]

/-- What shows another number has no byte after its opcode. -/
theorem hasOperand_of_showsOther (address : Word) (readByte : DisasmReadFn) {value : Word}
    (shows : (disassemble address readByte).rangeEntry.showsOther value = true) :
    (disassemble address readByte).rangeEntry.hasOperand value = false := by
  have bytes : (disassemble address readByte).rangeEntry.bytes = [readByte address,
      (Disassembler.operandBytes address (getLength (readByte address)) readByte).1,
        (Disassembler.operandBytes address (getLength (readByte address)) readByte).2].take
          (getLength (readByte address)) := rfl
  have one : getLength (readByte address) = 1 := by
    by_contra long
    obtain ⟨notData, notRestart⟩ := format_of_long long
    have positive := CodeAnalysis.getLength_pos (readByte address)
    unfold DisassembledRangeInstruction.showsOther at shows
    rw [bytes] at shows
    cases length : getLength (readByte address) with
    | zero => omega
    | succ more =>
      rw [length] at shows
      have noRestart : isRstOpcode (readByte address) = false :=
        Bool.eq_false_iff.mpr fun restart => notRestart ((isRstOpcode_iff _).mp restart)
      simp [noRestart, notData] at shows
  unfold DisassembledRangeInstruction.hasOperand
  rw [bytes, one]
  rfl

namespace AgentApi

variable {δ : Type}

/-- The instructions of a range that have the value after their opcode. -/
def instructionsWith (api : AgentApi δ) (rangeStart rangeEnd value : Word) :
    List DisassembledRangeInstruction :=
  (api.linearDisassemble rangeStart
    (rangeEnd.toNat - rangeStart.toNat + 1)).2.instructions.filter (·.hasOperand value)

/-- The answer has exactly these instructions, or says that there are more than the limit. -/
def FindsImmediates (api : AgentApi δ) (rangeStart rangeEnd value : Word) (maxMatches : Nat) :
    Prop :=
  if (api.instructionsWith rangeStart rangeEnd value).length > maxMatches then
    ∃ message, (api.findImmediateInRange rangeStart rangeEnd value maxMatches).2 =
      .error (.limitExceeded, message)
  else
    (api.findImmediateInRange rangeStart rangeEnd value maxMatches).2 = .ok
      { rangeStart
        rangeEnd
        value
        hits := (api.instructionsWith rangeStart rangeEnd value).map (·.immediateMatch) }

/-- Each instruction of a range is what memory holds at its address. -/
theorem mem_linearDisassemble {api : AgentApi δ} {address : Word} {size : Nat}
    {inst : DisassembledRangeInstruction}
    (listed : inst ∈ (api.linearDisassemble address size).2.instructions) :
    ∃ addr, inst = (VectorDebugger.disassemble addr api.backend.readByte).rangeEntry := by
  have swept : ∀ (fuel addr : Nat),
      ∀ di ∈ (linearSweep api.backend.readByte (address.toNat + size) fuel addr).1,
        ∃ addr, di = VectorDebugger.disassemble addr api.backend.readByte := by
    intro fuel
    induction fuel with
    | zero => exact fun _ _ none' => absurd none' List.not_mem_nil
    | succ fuel inductionHypothesis =>
      intro addr di member
      unfold linearSweep at member
      dsimp only at member
      split at member
      · split at member
        · exact absurd member List.not_mem_nil
        · rcases List.mem_cons.mp member with rfl | later
          · exact ⟨_, rfl⟩
          · exact inductionHypothesis _ di later
      · exact absurd member List.not_mem_nil
  obtain ⟨di, member, rfl⟩ := List.mem_map.mp listed
  obtain ⟨addr, rfl⟩ := swept _ _ di member
  exact ⟨addr, rfl⟩

/-- The answer to a call with a range and a limit, from the instructions that are hits. -/
theorem findImmediateInRange_eq (api : AgentApi δ) {rangeStart rangeEnd : Word}
    (bound : rangeStart ≤ rangeEnd) (value : Word) {maxMatches : Nat} (positive : 0 < maxMatches)
    (most : maxMatches ≤ AgentLimits.maxSearchMatchesHard) :
    let found := (api.linearDisassemble rangeStart
      (rangeEnd.toNat - rangeStart.toNat + 1)).2.instructions.filter
        fun inst => operandHit inst.operands value
    (api.findImmediateInRange rangeStart rangeEnd value maxMatches).2 =
      if found.length > maxMatches then
        AgentApiResult.fail .limitExceeded ("more than " ++ toString maxMatches ++
          " matches; narrow the range")
      else .ok { rangeStart, rangeEnd, value, hits := found.map (·.immediateMatch) } := by
  have limit : ¬ (maxMatches = 0 ∨ maxMatches > AgentLimits.maxSearchMatchesHard) := by omega
  unfold findImmediateInRange
  rw [if_neg (BitVec.not_lt.mpr bound), if_neg limit]
  dsimp only
  rw [Collect.collect_nil]
  generalize (api.linearDisassemble rangeStart
    (rangeEnd.toNat - rangeStart.toNat + 1)).2.instructions.filter
      (fun inst => operandHit inst.operands value) = found
  by_cases many : found.length > maxMatches
  · rw [if_pos many, if_pos many]
  · rw [if_neg many, if_neg many]

/-- A range is searched as it should be exactly when no restart and no data byte in it shows the
value, or when there are too many instructions that have it. -/
theorem findsImmediates_iff (api : AgentApi δ) (rangeStart rangeEnd value : Word)
    (maxMatches : Nat) (bound : rangeStart ≤ rangeEnd) (positive : 0 < maxMatches)
    (most : maxMatches ≤ AgentLimits.maxSearchMatchesHard) :
    api.FindsImmediates rangeStart rangeEnd value maxMatches ↔
      (∀ inst ∈ (api.linearDisassemble rangeStart
          (rangeEnd.toNat - rangeStart.toNat + 1)).2.instructions,
        inst.showsOther value = false) ∨
      (api.instructionsWith rangeStart rangeEnd value).length > maxMatches := by
  have answer := api.findImmediateInRange_eq bound value positive most
  dsimp only at answer
  unfold FindsImmediates instructionsWith
  rw [answer]
  set insts := (api.linearDisassemble rangeStart
    (rangeEnd.toNat - rangeStart.toNat + 1)).2.instructions with swept
  set found := insts.filter (fun inst => operandHit inst.operands value) with hits
  set wanted := insts.filter (fun inst => inst.hasOperand value) with wanting
  have hit : ∀ inst ∈ insts, operandHit inst.operands value =
      (inst.hasOperand value || inst.showsOther value) := by
    intro inst listed
    obtain ⟨addr, rfl⟩ := mem_linearDisassemble listed
    exact operandHit_rangeEntry addr _ value
  have all : found = insts.filter fun inst => inst.hasOperand value || inst.showsOther value :=
    List.filter_congr hit
  have sub : wanted.Sublist found := by
    rw [all]
    exact List.monotone_filter_right insts fun inst operand => by rw [operand, Bool.true_or]
  have fewer := sub.length_le
  have same : found = wanted ↔ ∀ inst ∈ insts, inst.showsOther value = false := by
    constructor
    · intro equal inst listed
      by_contra shows
      have shows' := Bool.eq_true_of_not_eq_false shows
      have member : inst ∈ found := by
        rw [all]
        exact List.mem_filter.mpr ⟨listed, by rw [shows', Bool.or_true]⟩
      rw [equal] at member
      have operand := (List.mem_filter.mp member).2
      obtain ⟨addr, rfl⟩ := mem_linearDisassemble listed
      rw [hasOperand_of_showsOther addr _ shows'] at operand
      cases operand
    · intro none'
      rw [all]
      refine List.filter_congr fun inst listed => ?_
      rw [none' inst listed, Bool.or_false]
  rw [← same]
  by_cases many : wanted.length > maxMatches
  · rw [if_pos many, if_pos (Nat.lt_of_lt_of_le many fewer)]
    exact iff_of_true ⟨_, rfl⟩ (Or.inr many)
  · rw [if_neg many, or_iff_left many]
    constructor
    · intro answered
      split at answered
      · cases answered
      · have equal := congrArg ImmediateSearchResult.hits (Except.ok.inj answered)
        have lengths := congrArg List.length equal
        rw [List.length_map, List.length_map] at lengths
        exact (sub.eq_of_length lengths.symm).symm
    · intro equal
      rw [equal, if_neg many]

theorem findsImmediates_iff_started : started.FindsImmediates 0 0 0 1 ↔
    (∀ inst ∈ (started.linearDisassemble 0 1).2.instructions, inst.showsOther 0 = false) ∨
      (started.instructionsWith 0 0 0).length > 1 :=
  started.findsImmediates_iff 0 0 0 1 (by decide) (by decide) (by decide)

/-- A debugger that has just started, with an opcode at the start of memory that has no name. -/
def unnamed : AgentApi Unit := { started with backend := .init () [0xcb] fun _ => [] }

/-- A data byte is reported as an immediate. -/
theorem findImmediateInRange_dataByte : ¬ ∀ (api : AgentApi Unit)
    (rangeStart rangeEnd value : Word) (maxMatches : Nat), rangeStart ≤ rangeEnd →
      0 < maxMatches → maxMatches ≤ AgentLimits.maxSearchMatchesHard →
        api.FindsImmediates rangeStart rangeEnd value maxMatches := by
  intro finds
  have found := finds unnamed 0 0 0xcb 1 (by decide) (by decide) (by decide)
  have answer := unnamed.findImmediateInRange_eq (BitVec.le_refl 0) 0xcb Nat.one_pos (by decide)
  have none' : unnamed.instructionsWith 0 0 0xcb = [] := by decide
  have one : ((unnamed.linearDisassemble 0
      ((0 : Word).toNat - (0 : Word).toNat + 1)).2.instructions.filter
        fun inst => operandHit inst.operands 0xcb).length = 1 := by decide
  dsimp only at answer
  unfold FindsImmediates at found
  rw [none', if_neg (by decide), answer, if_neg (by rw [one]; decide)] at found
  have hits := congrArg ImmediateSearchResult.hits (Except.ok.inj found)
  have lengths := congrArg List.length hits
  rw [List.length_map, one] at lengths
  cases lengths

end AgentApi

end VectorDebugger

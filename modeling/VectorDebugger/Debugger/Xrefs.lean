import VectorDebugger.Debugger.Annotations
import VectorDebugger.Debugger.Disassembler

/-!
# Cross references

`SymbolDatabase::rebuildXrefs` looks through memory for calls, jumps and restarts. A first pass
decodes one instruction after another from the start of each code region and from each symbol;
a second pass tries every byte that is not a source yet. The scan lists the addresses that it
reads, because the byte reader of its caller may have effects.
-/

namespace VectorDebugger

/-- `MemoryRegionType`. -/
inductive MemoryRegionType
  | unknown | code | data
deriving DecidableEq, Repr

/-- `MemoryRegion`. -/
structure MemoryRegion where
  /-- `start`. -/
  start : Word
  /-- `end`, inclusive. -/
  last : Word
  /-- `type`. -/
  type : MemoryRegionType
deriving DecidableEq, Repr

/-- `XrefEntry`. -/
structure XrefEntry where
  /-- `from`. -/
  source : Word
  /-- `to`. -/
  target : Word
deriving DecidableEq, Repr

/-- The fields of `SymbolDatabase` for regions and references; its symbols are a store of their
own. -/
structure XrefTable where
  /-- `regions_`. -/
  regions : List MemoryRegion
  /-- `xrefs_`. -/
  xrefs : List XrefEntry
  /-- The keys of `callTargets_`. -/
  callTargets : Word → Bool
  /-- `xrefsDirty_`. -/
  xrefsDirty : Bool

/-- `isCallOpcode`. -/
def isCallOpcode (opcode : Byte) : Bool :=
  [0xcd, 0xc4, 0xcc, 0xd4, 0xdc, 0xe4, 0xec, 0xf4, 0xfc].contains opcode

/-- `isJmpOpcode`. -/
def isJmpOpcode (opcode : Byte) : Bool :=
  [0xc3, 0xc2, 0xca, 0xd2, 0xda, 0xe2, 0xea, 0xf2, 0xfa].contains opcode

/-- `isRstOpcode`. -/
def isRstOpcode (opcode : Byte) : Bool :=
  [0xc7, 0xcf, 0xd7, 0xdf, 0xe7, 0xef, 0xf7, 0xff].contains opcode

/-- Every address, in order. -/
def allAddresses : List Word := (List.range 65536).map (BitVec.ofNat 16)

/-- The local state of `rebuildXrefs`. -/
structure XrefScan where
  /-- `xrefs_`. -/
  xrefs : List XrefEntry
  /-- The keys of `callTargets_`. -/
  callTargets : Word → Bool
  /-- `seenFrom`. -/
  seenFrom : Word → Bool
  /-- The addresses given to `readByte`, in order. -/
  reads : List Word

namespace XrefScan

/-- Before the passes. -/
def start : XrefScan where
  xrefs := []
  callTargets := fun _ => false
  seenFrom := fun _ => false
  reads := []

/-- Bytes are read. -/
def read (scan : XrefScan) (addrs : List Word) : XrefScan :=
  { scan with reads := scan.reads ++ addrs }

/-- `record`. -/
def record (scan : XrefScan) (source target : Word) (isCall : Bool) : XrefScan :=
  { scan with
    xrefs := if scan.seenFrom source then scan.xrefs else scan.xrefs ++ [{ source, target }]
    seenFrom := Function.update scan.seenFrom source true
    callTargets :=
      if isCall then Function.update scan.callTargets target true else scan.callTargets }

/-- `readWord` of the bytes after an opcode. -/
def operandWord (readByte : DisasmReadFn) (addr : Word) : Word :=
  wordOf (readByte (addr + 1)) (readByte (addr + 2))

/-- The vector of a restart. -/
def restartTarget (opcode : Byte) : Word := (opcode &&& 0x38).setWidth 16

/-- `decodeAt`. -/
def decodeAt (readByte : DisasmReadFn) (scan : XrefScan) (addr : Word) (opcode : Byte)
    (len : Nat) : XrefScan :=
  if isCallOpcode opcode && len == 3 then
    (scan.read [addr + 1, addr + 2]).record addr (operandWord readByte addr) true
  else if isJmpOpcode opcode && len == 3 then
    (scan.read [addr + 1, addr + 2]).record addr (operandWord readByte addr) false
  else if isRstOpcode opcode then scan.record addr (restartTarget opcode) true
  else scan

/-- The decoding from one seed to the end of its range, with a bound on its passes. -/
def walk (readByte : DisasmReadFn) (last : Word) : Nat → Word → XrefScan → XrefScan
  | 0, _, scan => scan
  | fuel + 1, addr, scan =>
    if addr ≤ last then
      let opcode := readByte addr
      let len := getLength opcode
      let decoded := (scan.read [addr]).decodeAt readByte addr opcode len
      let next := addr + BitVec.ofNat 16 len
      if next ≤ addr then decoded else walk readByte last fuel next decoded
    else scan

/-- One seed of the first pass. -/
def decodeFrom (readByte : DisasmReadFn) (scanRanges : List (Word × Word)) (scan : XrefScan)
    (seed : Word) : XrefScan :=
  match scanRanges.find? fun range => range.1 ≤ seed && seed ≤ range.2 with
  | none => scan
  | some containing => walk readByte containing.2 65536 seed scan

/-- One address of the second pass. -/
def recoverAt (readByte : DisasmReadFn) (targetIsPlausible : XrefScan → Word → Bool)
    (scan : XrefScan) (addr : Word) : XrefScan :=
  if scan.seenFrom addr then scan
  else
    let opcode := readByte addr
    let fetched := scan.read [addr]
    if isCallOpcode opcode then
      let target := operandWord readByte addr
      let whole := fetched.read [addr + 1, addr + 2]
      if targetIsPlausible whole target then whole.record addr target true else whole
    else if isRstOpcode opcode then
      let target := restartTarget opcode
      if targetIsPlausible fetched target then fetched.record addr target true else fetched
    else fetched

/-- Something was read, or nothing was done. -/
def Begun (scan : XrefScan) : Prop := scan = start ∨ scan.reads ≠ []

theorem read_ne_nil (scan : XrefScan) (addr : Word) : (scan.read [addr]).reads ≠ [] :=
  List.append_ne_nil_of_right_ne_nil _ (List.cons_ne_nil addr [])

theorem decodeAt_reads (readByte : DisasmReadFn) {scan : XrefScan} (fetched : scan.reads ≠ [])
    (addr : Word) (opcode : Byte) (len : Nat) :
    (scan.decodeAt readByte addr opcode len).reads ≠ [] := by
  have more : scan.reads ++ [addr + 1, addr + 2] ≠ [] :=
    List.append_ne_nil_of_left_ne_nil fetched _
  unfold decodeAt
  split
  · exact more
  · split
    · exact more
    · split
      · exact fetched
      · exact fetched

theorem walk_reads (readByte : DisasmReadFn) (last : Word) (fuel : Nat) :
    ∀ {scan : XrefScan} (addr : Word), scan.reads ≠ [] →
      (walk readByte last fuel addr scan).reads ≠ [] := by
  induction fuel with
  | zero => exact fun _ fetched => fetched
  | succ fuel inductionHypothesis =>
    intro scan addr fetched
    unfold walk
    have decoded := decodeAt_reads readByte (scan.read_ne_nil addr) addr (readByte addr)
      (getLength (readByte addr))
    split
    · dsimp only
      split
      · exact decoded
      · exact inductionHypothesis _ decoded
    · exact fetched

/-- A walk that starts inside its range reads. -/
theorem walk_inside (readByte : DisasmReadFn) {last addr : Word} (inside : addr ≤ last)
    (scan : XrefScan) : (walk readByte last 65536 addr scan).reads ≠ [] := by
  have decoded := decodeAt_reads readByte (scan.read_ne_nil addr) addr (readByte addr)
    (getLength (readByte addr))
  unfold walk
  rw [if_pos inside]
  dsimp only
  split
  · exact decoded
  · exact walk_reads readByte last 65535 _ decoded

/-- A seed in a range makes the first pass read; any other is passed over. -/
theorem decodeFrom_spec (readByte : DisasmReadFn) (scanRanges : List (Word × Word))
    (scan : XrefScan) (seed : Word) :
    decodeFrom readByte scanRanges scan seed = scan ∨
      (decodeFrom readByte scanRanges scan seed).reads ≠ [] := by
  unfold decodeFrom
  cases found : scanRanges.find? fun range => range.1 ≤ seed && seed ≤ range.2 with
  | none => exact .inl rfl
  | some containing =>
    have inside := List.find?_some found
    simp only [Bool.and_eq_true, decide_eq_true_eq] at inside
    exact .inr (walk_inside readByte inside.2 scan)

/-- An address that is no source yet is read. -/
theorem recoverAt_reads (readByte : DisasmReadFn) (targetIsPlausible : XrefScan → Word → Bool)
    {scan : XrefScan} {addr : Word} (unread : scan.seenFrom addr = false ∨ scan.reads ≠ []) :
    (recoverAt readByte targetIsPlausible scan addr).reads ≠ [] := by
  have first := scan.read_ne_nil addr
  have whole : (scan.read [addr]).reads ++ [addr + 1, addr + 2] ≠ [] :=
    List.append_ne_nil_of_left_ne_nil first _
  unfold recoverAt
  split
  · rename_i seen
    exact unread.resolve_left (by rw [seen]; exact Bool.true_eq_false.mp)
  · dsimp only
    split
    · split
      · exact whole
      · exact whole
    · split
      · split
        · exact first
        · exact first
      · exact first

end XrefScan

namespace XrefTable

/-- `regions_`, `xrefs_` and `callTargets_` as constructed; nothing is scanned yet. -/
def init : XrefTable where
  regions := []
  xrefs := []
  callTargets := fun _ => false
  xrefsDirty := true

/-- The code regions, as pairs of bounds. -/
def codeRanges (table : XrefTable) : List (Word × Word) :=
  (table.regions.filter (·.type = .code)).map fun region => (region.start, region.last)

/-- `scanRanges`. -/
def scanRanges (table : XrefTable) : List (Word × Word) :=
  if table.codeRanges.isEmpty then [(0x0000, 0xffff)] else table.codeRanges

/-- `seeds`, in order and each once. -/
def seeds (table : XrefTable) (symbols : SymbolDatabase) : List Word :=
  allAddresses.filter fun addr =>
    table.scanRanges.any (·.1 = addr) || (symbols.symbols addr).isSome

/-- `targetIsPlausible`. -/
def targetIsPlausible (table : XrefTable) (symbols : SymbolDatabase) (scan : XrefScan)
    (target : Word) : Bool :=
  (symbols.symbols target).isSome || scan.callTargets target ||
    table.codeRanges.any fun range => range.1 ≤ target && target ≤ range.2

/-- The first pass. -/
def firstPass (table : XrefTable) (symbols : SymbolDatabase) (readByte : DisasmReadFn) :
    XrefScan :=
  (table.seeds symbols).foldl (XrefScan.decodeFrom readByte table.scanRanges) .start

/-- Something is known to filter targets against. -/
def knowsTargets (table : XrefTable) (symbols : SymbolDatabase) : Bool :=
  !table.codeRanges.isEmpty || allAddresses.any fun addr => (symbols.symbols addr).isSome

/-- Both passes. -/
def scan (table : XrefTable) (symbols : SymbolDatabase) (readByte : DisasmReadFn) : XrefScan :=
  let first := table.firstPass symbols readByte
  if table.knowsTargets symbols then
    allAddresses.foldl (XrefScan.recoverAt readByte (table.targetIsPlausible symbols)) first
  else first

/-- `SymbolDatabase::rebuildXrefs`. -/
def rebuildXrefs (table : XrefTable) (symbols : SymbolDatabase) (readByte : DisasmReadFn) :
    XrefTable :=
  let scanned := table.scan symbols readByte
  { table with
    xrefs := scanned.xrefs, callTargets := scanned.callTargets, xrefsDirty := false }

/-- `SymbolDatabase::xrefsTo`. -/
def xrefsTo (table : XrefTable) (addr : Word) : List XrefEntry :=
  table.xrefs.filter (·.target = addr)

/-- `SymbolDatabase::xrefsFrom`. -/
def xrefsFrom (table : XrefTable) (addr : Word) : List XrefEntry :=
  table.xrefs.filter (·.source = addr)

/-- `SymbolDatabase::callGraph`. -/
def callGraph (table : XrefTable) : List XrefEntry :=
  table.xrefs.filter fun xref => table.callTargets xref.target

theorem firstPass_begun (table : XrefTable) (symbols : SymbolDatabase)
    (readByte : DisasmReadFn) : (table.firstPass symbols readByte).Begun := by
  refine List.foldlRecOn (motive := XrefScan.Begun) _ _ (.inl rfl) fun scan begun seed _ => ?_
  obtain same | fetched := XrefScan.decodeFrom_spec readByte table.scanRanges scan seed
  · rw [same]
    exact begun
  · exact .inr fetched

theorem allAddresses_eq : ∃ rest, allAddresses = 0 :: rest := by
  refine ⟨(List.range' 1 65535).map (BitVec.ofNat 16), ?_⟩
  unfold allAddresses
  rw [List.range_eq_range', show (65536 : Nat) = 65535 + 1 from rfl, List.range'_succ]
  rfl

/-- Without code regions the first pass starts at address zero. -/
theorem firstPass_reads {table : XrefTable} (unclassified : table.codeRanges = [])
    (symbols : SymbolDatabase) (readByte : DisasmReadFn) :
    (table.firstPass symbols readByte).reads ≠ [] := by
  have ranges : table.scanRanges = [(0x0000, 0xffff)] := by
    unfold scanRanges
    rw [unclassified]
    rfl
  obtain ⟨rest, addresses⟩ := allAddresses_eq
  unfold firstPass seeds
  rw [ranges, addresses, List.filter_cons_of_pos rfl, List.foldl_cons]
  refine List.foldlRecOn (motive := fun scan : XrefScan => scan.reads ≠ []) _ _ ?_
    fun scan fetched seed _ => ?_
  · exact XrefScan.walk_inside readByte (by decide) .start
  · obtain same | more := XrefScan.decodeFrom_spec readByte [(0x0000, 0xffff)] scan seed
    · rw [same]
      exact fetched
    · exact more

/-- The second pass keeps what was read. -/
theorem recoverAll_reads (table : XrefTable) (symbols : SymbolDatabase)
    (readByte : DisasmReadFn) (addrs : List Word) {scan : XrefScan} (fetched : scan.reads ≠ []) :
    (addrs.foldl (XrefScan.recoverAt readByte (table.targetIsPlausible symbols)) scan).reads
      ≠ [] :=
  List.foldlRecOn (motive := fun scan : XrefScan => scan.reads ≠ []) _ _ fetched
    fun _ fetched _ _ => XrefScan.recoverAt_reads readByte _ (.inr fetched)

/-- A scan always reads. -/
theorem scan_reads (table : XrefTable) (symbols : SymbolDatabase) (readByte : DisasmReadFn) :
    (table.scan symbols readByte).reads ≠ [] := by
  unfold scan
  dsimp only
  obtain idle | fetched := table.firstPass_begun symbols readByte
  · by_cases unclassified : table.codeRanges = []
    · exact absurd (congrArg XrefScan.reads idle) (firstPass_reads unclassified symbols readByte)
    · have known : table.knowsTargets symbols = true := by
        unfold knowsTargets
        rw [List.isEmpty_eq_false_iff.mpr unclassified]
        rfl
      obtain ⟨rest, addresses⟩ := allAddresses_eq
      rw [if_pos known, idle, addresses, List.foldl_cons]
      exact recoverAll_reads table symbols readByte rest
        (XrefScan.recoverAt_reads readByte _ (.inl rfl))
  · split
    · exact recoverAll_reads table symbols readByte _ fetched
    · exact fetched

end XrefTable

end VectorDebugger

import VectorDebugger.Debugger.Backend
import VectorDebugger.Debugger.CodeAnalyzer
import VectorDebugger.Debugger.Xrefs

/-!
# Queries of the agent interface

The questions that `AgentApi` answers about the program and its state. All of them read memory
through `DebugBackend::readMemory`, a real read of the bus that fires the read callback, so each
query returns the interface as its reads leave it.

The log of calls is left out.
-/

namespace VectorDebugger

/-- `ErrorCode`. -/
inductive ErrorCode
  | none | invalidArgument | invalidAddress | invalidRange | noRomLoaded | notPaused | notRunning
  | operationFailed | timeout | unsupported | notFound | limitExceeded
deriving DecidableEq, Repr

/-- `AgentApiResult` — a value, or an error code with its message. -/
abbrev AgentApiResult (α : Type) := Except (ErrorCode × Text) α

/-- `AgentApiResult::fail`. -/
def AgentApiResult.fail {α : Type} (code : ErrorCode) (message : String) : AgentApiResult α :=
  .error (code, ascii message)

namespace AgentLimits

/-- `MAX_DISASSEMBLY_COUNT`. -/
def maxDisassemblyCount : Nat := 10000

/-- `MAX_CALL_GRAPH_LIMIT`. -/
def maxCallGraphLimit : Nat := 10000

/-- `MAX_STACK_LIMIT`. -/
def maxStackLimit : Nat := 1000

/-- `MAX_HISTORY_ENTRIES`. -/
def maxHistoryEntries : Nat := 100000

/-- `MAX_MEMORY_READ_RANGE`. -/
def maxMemoryReadRange : Nat := 65536

/-- `MAX_CODE_ANALYSIS_INSTRUCTIONS`. -/
def maxCodeAnalysisInstructions : Nat := 10000

/-- `MAX_ANALYSIS_ENTRY_POINTS`. -/
def maxAnalysisEntryPoints : Nat := 256

end AgentLimits

namespace DebugBackend

variable {δ : Type}

/-- `DebugBackend::readMemory`, with the hook that the read fires. -/
def readMemory (backend : DebugBackend δ) (address : Word) : Byte × DebugBackend δ :=
  let machine := backend.target.board.machine
  let result := machine.memory.read address.toNat false
  (result.1,
    { backend with
      instrumentation :=
        backend.instrumentation.onMemoryRead address.toNat result.2 false result.1 machine.cpu.pc })

/-- Bytes read one after another. -/
def readAll (backend : DebugBackend δ) (addresses : List Word) : DebugBackend δ :=
  addresses.foldl (fun backend address => (backend.readMemory address).2) backend

/-- The value of `readByte`, the reader that every query builds on `readMemory`. -/
def readByte (backend : DebugBackend δ) : DisasmReadFn := fun address =>
  (backend.readMemory address).1

end DebugBackend

/-- The addresses that `disassemble` reads, in order. -/
def disassembleReads (readByte : DisasmReadFn) (address : Word) : List Word :=
  let length := getLength (readByte address)
  address :: (if length ≥ 2 then [address + 1] else []) ++
    (if length ≥ 3 then [address + 2] else [])

/-- The addresses that are read to decode instructions one after another. -/
def decodeReads (readByte : DisasmReadFn) (decoded : List DisassembledInstruction) : List Word :=
  decoded.flatMap fun di => disassembleReads readByte di.address

/-- The addresses that `analyzeCodeMulti` reads: an instruction is kept exactly when it is
decoded. -/
def analysisReads (entryPoints : List Word) (readByte : DisasmReadFn) (maxInstructions : Nat) :
    List Word :=
  let entries := firstOccurrences entryPoints
  let done := (CodeAnalysis.start entries).loop readByte maxInstructions
    (CodeAnalysis.passBound entries)
  done.instructions.flatMap fun inst => disassembleReads readByte inst.address

/-- `DisassembledInstructionResult`. -/
structure DisassembledInstructionResult where
  /-- `address`. -/
  address : Word
  /-- `next_address`. -/
  nextAddress : Word
  /-- `bytes`. -/
  bytes : List Byte
  /-- `mnemonic`. -/
  mnemonic : Text
  /-- `operands`. -/
  operands : Text
  /-- `text`. -/
  text : Text
deriving DecidableEq, Repr

/-- The entry made of a decoded instruction. -/
def DisassembledInstruction.result (di : DisassembledInstruction) :
    DisassembledInstructionResult where
  address := di.address
  nextAddress := di.nextAddr
  bytes := di.bytes.take di.length
  mnemonic := di.mnemonic
  operands := di.operands
  text := di.text

/-- The loop of `AgentApi::disassemble`. -/
def disassembleLoop (readByte : DisasmReadFn) : Nat → Word → List DisassembledInstruction
  | 0, _ => []
  | count + 1, pc =>
    let di := disassemble pc readByte
    if di.nextAddr ≤ pc then [di] else di :: disassembleLoop readByte count di.nextAddr

/-- `DisassembledRangeInstruction`. -/
structure DisassembledRangeInstruction where
  /-- `address`. -/
  address : Word
  /-- `bytes`. -/
  bytes : List Byte
  /-- `mnemonic`. -/
  mnemonic : Text
  /-- `operands`. -/
  operands : Text
  /-- `size`. -/
  size : Nat
  /-- `branch_target`. -/
  branchTarget : Option Word
  /-- `branch_type` — empty for an instruction that does not branch. -/
  branchType : Text
deriving DecidableEq, Repr

/-- `branch_type` of an instruction. -/
def ControlFlowType.branchType : ControlFlowType → Text
  | .unconditionalRet | .conditionalRet => ascii "RET"
  | flow => (flow.refType.map RefType.name).getD []

/-- The entry of a range made of a decoded instruction. -/
def DisassembledInstruction.rangeEntry (di : DisassembledInstruction) :
    DisassembledRangeInstruction where
  address := di.address
  bytes := di.bytes.take di.length
  mnemonic := di.mnemonic
  operands := di.operands
  size := di.length
  branchTarget := (classifyControlFlow di.opcode).refType.map fun _ => di.target
  branchType := (classifyControlFlow di.opcode).branchType

/-- `DisassembleRangeResult`. -/
structure DisassembleRangeResult where
  /-- `startAddress`. -/
  startAddress : Word
  /-- `size`. -/
  size : Nat
  /-- `instructions`. -/
  instructions : List DisassembledRangeInstruction
  /-- `incomplete_instruction`. -/
  incompleteInstruction : Bool
deriving DecidableEq, Repr

/-- The loop of `AgentApi::linearDisassemble`, with a bound on its passes: the instructions that
fit, and the one that does not. -/
def linearSweep (readByte : DisasmReadFn) (rangeEnd : Nat) :
    Nat → Nat → List DisassembledInstruction × Option DisassembledInstruction
  | 0, _ => ([], none)
  | fuel + 1, currentAddr =>
    if currentAddr < rangeEnd then
      let di := disassemble (BitVec.ofNat 16 currentAddr) readByte
      let instrEnd := currentAddr + di.length
      if instrEnd > rangeEnd then ([], some di)
      else
        let rest := linearSweep readByte rangeEnd fuel instrEnd
        (di :: rest.1, rest.2)
    else ([], none)

/-- `CoverageReportResult`; a range is a pair of inclusive bounds. -/
structure CoverageReportResult where
  /-- `imageStart`. -/
  imageStart : Word
  /-- `imageEnd`, inclusive. -/
  imageEnd : Word
  /-- `codeRanges`. -/
  codeRanges : List (Word × Word)
  /-- `uncoveredRanges`. -/
  uncoveredRanges : List (Word × Word)
  /-- `branchTargets`. -/
  branchTargets : List ControlFlowRef
  /-- `uncoveredBranchTargets`. -/
  uncoveredBranchTargets : List Word
  /-- `imageBytes`. -/
  imageBytes : Nat
  /-- `codeBytes`. -/
  codeBytes : Nat
  /-- `instructionCount`. -/
  instructionCount : Nat
  /-- `truncated`. -/
  truncated : Bool
deriving DecidableEq, Repr

namespace Coverage

/-- The end of the run of marked offsets that goes on at `i`, with a bound on its passes. -/
def runEnd (marked : Nat → Bool) (length : Nat) : Nat → Nat → Nat
  | 0, i => i
  | fuel + 1, i => if i < length && marked i then runEnd marked length fuel (i + 1) else i

/-- The runs of marked offsets from `i` on, with a bound on the passes. -/
def runs (marked : Nat → Bool) (length : Nat) (imageStart : Word) : Nat → Nat → List (Word × Word)
  | 0, _ => []
  | fuel + 1, i =>
    if i < length then
      if marked i then
        let stop := runEnd marked length (length - i) i
        (imageStart + BitVec.ofNat 16 i, imageStart + BitVec.ofNat 16 (stop - 1)) ::
          runs marked length imageStart fuel stop
      else runs marked length imageStart fuel (i + 1)
    else []

/-- An analyzed instruction that does not wrap has a byte at an address. -/
def covers (inst : AnalyzedInstruction) (addr : Nat) : Bool :=
  inst.address.toNat + inst.size ≤ 0x10000 && inst.address.toNat ≤ addr &&
    addr < inst.address.toNat + inst.size

/-- The report on an analysis, for an image that ends before `imgEnd`. -/
def report (imageStart : Word) (imageLength imgEnd : Nat) (analysis : CodeAnalysisResult) :
    CoverageReportResult :=
  let covered := fun i =>
    imageStart.toNat + i < imgEnd && analysis.instructions.any (covers · (imageStart.toNat + i))
  let branchTargets := analysis.references.insertionSort fun a b =>
    if a.source ≠ b.source then a.source < b.source else a.target ≤ b.target
  { imageStart
    imageEnd := BitVec.ofNat 16 (imgEnd + 0xffff)
    codeRanges := runs covered imageLength imageStart imageLength 0
    uncoveredRanges := runs (fun i => !covered i) imageLength imageStart imageLength 0
    branchTargets
    uncoveredBranchTargets := allAddresses.filter fun addr =>
      branchTargets.any (·.target = addr) &&
        !(imageStart ≤ addr && covered (addr.toNat - imageStart.toNat))
    imageBytes := imageLength
    codeBytes := (List.range imageLength).countP covered
    instructionCount := analysis.instructionCount
    truncated := analysis.truncated }

end Coverage

/-- `StackEntry`. -/
structure StackEntry where
  /-- `address`. -/
  address : Word
  /-- `value`. -/
  value : Word
  /-- `symbol` — empty where there is none. -/
  symbol : Text
deriving DecidableEq, Repr

/-- `InstructionHistoryEntry`. -/
structure InstructionHistoryEntry where
  /-- `address`. -/
  address : Word
  /-- `bytes`. -/
  bytes : List Byte
  /-- `disassembly`. -/
  disassembly : Text
  /-- `next_address`. -/
  nextAddress : Word
deriving DecidableEq, Repr

/-- The entry made of a recorded instruction. -/
def InstructionEvent.historyEntry (readByte : DisasmReadFn) (ev : InstructionEvent) :
    InstructionHistoryEntry where
  address := ev.before.pc
  bytes := [ev.opcode, ev.operandBytes.1, ev.operandBytes.2].take (max 1 ev.length)
  disassembly := (disassemble ev.before.pc readByte).text
  nextAddress := ev.after.pc

/-- `DebugStateResult`; `cpu` is split into the processor and `last_pc`. -/
structure DebugStateResult where
  /-- `running`. -/
  running : Bool
  /-- `cpu`. -/
  cpu : I8080
  /-- `cpu.last_pc`. -/
  lastPc : Word
  /-- `breakpoints`. -/
  breakpoints : List DebuggerBreakpoint
  /-- `current_instruction`. -/
  currentInstruction : Text
  /-- `current_function`. -/
  currentFunction : Text
deriving DecidableEq, Repr

/-- The name of the symbol at an address, or nothing. -/
def SymbolDatabase.nameAt (db : SymbolDatabase) (addr : Word) : Text :=
  ((db.symbols addr).map DebugSymbol.name).getD []

/-- `AgentApi` — the backend, and the part of its `symbolDatabase()` that the references fill. -/
structure AgentApi (δ : Type) where
  /-- `backend_`. -/
  backend : DebugBackend δ
  /-- Regions and references of `backend_.symbolDatabase()`. -/
  table : XrefTable

namespace AgentApi

variable {δ : Type}

/-- The interface after its reader has read bytes. -/
def reading (api : AgentApi δ) (addresses : List Word) : AgentApi δ :=
  { api with backend := api.backend.readAll addresses }

/-- `AgentApi::disassemble`. -/
def disassemble (api : AgentApi δ) (address : Word) (count : Nat) :
    AgentApi δ × AgentApiResult (List DisassembledInstructionResult) :=
  if count = 0 then (api, .fail .invalidArgument "count must be > 0")
  else
    let decoded :=
      disassembleLoop api.backend.readByte (min count AgentLimits.maxDisassemblyCount) address
    (api.reading (decodeReads api.backend.readByte decoded), .ok (decoded.map (·.result)))

/-- `AgentApi::analyzeCode` of one entry point. -/
def analyzeCode (api : AgentApi δ) (startAddress : Word) (maxInstructions : Nat) :
    AgentApi δ × AgentApiResult CodeAnalysisResult :=
  if maxInstructions = 0 then (api, .fail .invalidArgument "maxInstructions must be > 0")
  else
    let capped := min maxInstructions AgentLimits.maxCodeAnalysisInstructions
    (api.reading (analysisReads [startAddress] api.backend.readByte capped),
      .ok (VectorDebugger.analyzeCode startAddress api.backend.readByte capped))

/-- `AgentApi::analyzeCode` of several entry points. -/
def analyzeCodeMulti (api : AgentApi δ) (entryPoints : List Word) (maxInstructions : Nat) :
    AgentApi δ × AgentApiResult CodeAnalysisResult :=
  if entryPoints = [] then (api, .fail .invalidArgument "entryPoints must not be empty")
  else if maxInstructions = 0 then
    (api, .fail .invalidArgument "maxInstructions must be > 0")
  else if entryPoints.length > AgentLimits.maxAnalysisEntryPoints then
    (api, .fail .invalidArgument "entryPoints count exceeds limit (256)")
  else
    let capped := min maxInstructions AgentLimits.maxCodeAnalysisInstructions
    (api.reading (analysisReads entryPoints api.backend.readByte capped),
      .ok (VectorDebugger.analyzeCodeMulti entryPoints api.backend.readByte capped))

/-- `AgentApi::linearDisassemble`. -/
def linearDisassemble (api : AgentApi δ) (address : Word) (size : Nat) :
    AgentApi δ × DisassembleRangeResult :=
  let readByte := api.backend.readByte
  let swept := linearSweep readByte (address.toNat + size) size address.toNat
  (api.reading (decodeReads readByte (swept.1 ++ swept.2.toList)),
    { startAddress := address
      size := if size ≤ 0xffff then size else 0xffff
      instructions := swept.1.map (·.rangeEntry)
      incompleteInstruction := swept.2.isSome })

/-- `AgentApi::disassembleRange`. -/
def disassembleRange (api : AgentApi δ) (address size : Word) :
    AgentApi δ × AgentApiResult DisassembleRangeResult :=
  if size.toNat = 0 then (api, .fail .invalidArgument "size must be > 0")
  else if size.toNat > AgentLimits.maxMemoryReadRange then
    (api, .fail .invalidRange "size exceeds maximum (65536)")
  else if address.toNat + size.toNat > 0x10000 then
    (api, .fail .invalidRange "address + size exceeds 64K address space")
  else
    let result := api.linearDisassemble address size.toNat
    (result.1, .ok { result.2 with startAddress := address, size := size.toNat })

/-- `AgentApi::coverageReport`; the sum that is checked has 32 bits. -/
def coverageReport (api : AgentApi δ) (entryPoints : List Word) (imageStart : Word)
    (imageLength : BitVec 32) (maxInstructions : Nat) :
    AgentApi δ × AgentApiResult CoverageReportResult :=
  let imgEnd := imageStart.setWidth 32 + imageLength
  if entryPoints = [] then (api, .fail .invalidArgument "at least one entry point is required")
  else if imageLength = 0 ∨ imgEnd > 0x10000 then
    (api, .fail .invalidRange "invalid image range")
  else if maxInstructions = 0 ∨ maxInstructions > AgentLimits.maxCodeAnalysisInstructions then
    (api, .fail .invalidArgument "maxInstructions must be 1..10000")
  else
    let analysis := api.analyzeCodeMulti entryPoints maxInstructions
    (analysis.1, analysis.2.map (Coverage.report imageStart imageLength.toNat imgEnd.toNat))

/-- `AgentApi::ensureXrefsBuilt`. -/
def ensureXrefsBuilt (api : AgentApi δ) : AgentApi δ :=
  if api.table.xrefsDirty then
    let symbols := api.backend.symbols
    let readByte := api.backend.readByte
    { api.reading (api.table.scan symbols readByte).reads with
      table := api.table.rebuildXrefs symbols readByte }
  else api

/-- `AgentApi::getXrefs`. -/
def getXrefs (api : AgentApi δ) (address : Word) :
    AgentApi δ × AgentApiResult (List XrefEntry) :=
  let built := api.ensureXrefsBuilt
  (built, .ok (built.table.xrefsTo address ++ built.table.xrefsFrom address))

/-- `AgentApi::getCallGraph`. -/
def getCallGraph (api : AgentApi δ) (address : Option Word) (limit : Nat) :
    AgentApi δ × AgentApiResult (List XrefEntry) :=
  let built := api.ensureXrefsBuilt
  let edges := match address with
    | some addr =>
      built.table.callGraph.filter fun (e : XrefEntry) => e.source = addr || e.target = addr
    | none => built.table.callGraph
  (built, .ok (edges.take (if limit > 0 then limit else AgentLimits.maxCallGraphLimit)))

/-- The stack slots that `AgentApi::getStack` visits. -/
def stackSlots (sp : Word) (limit : Nat) : List Nat :=
  ((List.range (min limit AgentLimits.maxStackLimit)).map fun i => sp.toNat + 2 * i).takeWhile
    (· ≤ 0xffff)

/-- The addresses that one stack slot reads. -/
def slotReads (fullAddr : Nat) : List Word :=
  BitVec.ofNat 16 fullAddr ::
    if fullAddr + 1 ≤ 0xffff then [BitVec.ofNat 16 (fullAddr + 1)] else []

/-- The entry of one stack slot. -/
def stackEntry (backend : DebugBackend δ) (fullAddr : Nat) : StackEntry :=
  let value := wordOf (backend.readByte (BitVec.ofNat 16 fullAddr))
    (if fullAddr + 1 ≤ 0xffff then backend.readByte (BitVec.ofNat 16 (fullAddr + 1)) else 0)
  { address := BitVec.ofNat 16 fullAddr, value, symbol := backend.symbols.nameAt value }

/-- `AgentApi::getStack`. -/
def getStack (api : AgentApi δ) (limit : Nat) : AgentApi δ × AgentApiResult (List StackEntry) :=
  if limit = 0 then (api, .fail .invalidArgument "limit must be > 0")
  else
    let slots := stackSlots api.backend.target.sp limit
    (api.reading (slots.flatMap slotReads), .ok (slots.map (stackEntry api.backend)))

/-- `AgentApi::getInstructionHistory`. -/
def getInstructionHistory (api : AgentApi δ) (count : Nat) :
    AgentApi δ × AgentApiResult (List InstructionHistoryEntry) :=
  if count = 0 then (api, .fail .invalidArgument "count must be > 0")
  else
    let all := api.backend.instrumentation.instrHistory.snapshot
    let last := all.drop (all.length - min count AgentLimits.maxHistoryEntries)
    let readByte := api.backend.readByte
    (api.reading (last.flatMap fun ev => disassembleReads readByte ev.before.pc),
      .ok (last.map (·.historyEntry readByte)))

/-- `AgentApi::getDebugState`. -/
def getDebugState (api : AgentApi δ) : AgentApi δ × AgentApiResult DebugStateResult :=
  let backend := api.backend
  let cpu := backend.target.board.machine.cpu
  (api.reading (disassembleReads backend.readByte cpu.pc),
    .ok
      { running := backend.state != .paused
        cpu
        lastPc := backend.lastPc
        breakpoints := backend.breakpoints.map (·.2)
        currentInstruction := (VectorDebugger.disassemble cpu.pc backend.readByte).text
        currentFunction := backend.symbols.nameAt cpu.pc })

end AgentApi

end VectorDebugger

import VectorDebugger.Debugger.BreakpointSets
import VectorDebugger.Debugger.Queries
import VectorDebugger.Library.Transition

/-!
# Cross references over a session

`ensureXrefsBuilt` scans only when `xrefsDirty_` is set, and keeps the result for every query
until `invalidateXrefs` sets the flag again. A scan depends on the regions, on the addresses that
have a symbol and on the bytes that a reader sees. The flag is set when a region changes, when a
symbol appears or disappears and when a program is loaded. Nothing sets it when a byte changes.
-/

namespace VectorDebugger

/-! ### The regions -/

/-- What a new region leaves of one that is there. -/
def MemoryRegion.outside (start last : Word) (r : MemoryRegion) : List MemoryRegion :=
  if r.last < start ∨ last < r.start then [r]
  else
    (if r.start < start then [{ r with last := start - 1 }] else []) ++
      (if last < r.last then [{ r with start := last + 1 }] else [])

namespace XrefTable

/-- `SymbolDatabase::invalidateXrefs`. -/
def invalidateXrefs (table : XrefTable) : XrefTable := { table with xrefsDirty := true }

/-- `SymbolDatabase::setRegion`, with its result. -/
def setRegion (table : XrefTable) (start last : Word) (type : MemoryRegionType) :
    XrefTable × Bool :=
  if last < start then (table, false)
  else
    let newRegion : MemoryRegion := { start, last, type }
    let adjusted := table.regions.flatMap (·.outside start last) ++ [newRegion]
    ({ table with regions := adjusted.mergeSort fun a b => a.start ≤ b.start }.invalidateXrefs,
      true)

/-- `SymbolDatabase::removeRegion`, with its result. -/
def removeRegion (table : XrefTable) (start : Word) : XrefTable × Bool :=
  if table.regions.any (·.start = start) then
    ({ table with regions := table.regions.eraseP (·.start = start) }.invalidateXrefs, true)
  else (table, false)

/-- Changing a region sets the flag, or leaves the table as it is. -/
theorem setRegion_marks (table : XrefTable) (start last : Word) (type : MemoryRegionType) :
    (table.setRegion start last type).1.xrefsDirty = true ∨
      (table.setRegion start last type).1 = table := by
  unfold setRegion
  split
  · exact .inr rfl
  · exact .inl rfl

theorem removeRegion_marks (table : XrefTable) (start : Word) :
    (table.removeRegion start).1.xrefsDirty = true ∨ (table.removeRegion start).1 = table := by
  unfold removeRegion
  split
  · exact .inl rfl
  · exact .inr rfl

/-! ### What a scan depends on -/

/-- The same addresses have a symbol. -/
def SameAddresses (after before : SymbolDatabase) : Prop :=
  ∀ addr, (after.symbols addr).isSome = (before.symbols addr).isSome

/-- A scan depends on the regions, the addresses of the symbols and the bytes, on nothing
else. -/
theorem scan_congr {after before : XrefTable} (regions : after.regions = before.regions)
    {symbols' symbols : SymbolDatabase} (addresses : SameAddresses symbols' symbols)
    (readByte : DisasmReadFn) : after.scan symbols' readByte = before.scan symbols readByte := by
  have ranges : after.codeRanges = before.codeRanges := by
    unfold codeRanges
    rw [regions]
  have scanned : after.scanRanges = before.scanRanges := by
    unfold scanRanges
    rw [ranges]
  have seeds : after.seeds symbols' = before.seeds symbols := by
    unfold XrefTable.seeds
    simp only [scanned, addresses _]
  have first : after.firstPass symbols' readByte = before.firstPass symbols readByte := by
    unfold firstPass
    rw [seeds, scanned]
  have knows : after.knowsTargets symbols' = before.knowsTargets symbols := by
    unfold knowsTargets
    simp only [ranges, addresses _]
  have targets : after.targetIsPlausible symbols' = before.targetIsPlausible symbols := by
    funext scan target
    unfold targetIsPlausible
    rw [ranges, addresses target]
  unfold XrefTable.scan
  rw [first, knows, targets]

end XrefTable

/-! ### Functions -/

/-- `SymbolDatabase::autoName`. -/
def SymbolDatabase.autoName (addr : Word) : Text :=
  ascii "sub_" ++ Disassembler.fmtHex addr.toNat 4

/-- `FunctionContext::Instruction`. -/
structure FunctionInstruction where
  /-- `address`. -/
  address : Word
  /-- `text`. -/
  text : Text
  /-- `bytes`. -/
  bytes : List Byte
  /-- `length`. -/
  length : Nat
deriving DecidableEq, Repr

/-- The copy that `disassembleFunction` keeps. -/
def DisassembledInstruction.functionInstruction (di : DisassembledInstruction) :
    FunctionInstruction where
  address := di.address
  text := di.text
  bytes := di.bytes
  length := di.length

/-- `MAX_FUNC_SIZE`. -/
def maxFuncSize : Nat := 4096

/-- The loop of `AgentApi::disassembleFunction`, with a bound on its passes. -/
def disassembleFunctionLoop (symbols : SymbolDatabase) (readByte : DisasmReadFn)
    (address : Word) : Nat → Word → Nat → List DisassembledInstruction
  | 0, _, _ => []
  | fuel + 1, pc, bytesDone =>
    if bytesDone < maxFuncSize then
      if pc ≠ address ∧ (symbols.symbols pc).isSome then []
      else
        let di := disassemble pc readByte
        let nextPc := pc + BitVec.ofNat 16 di.length
        if di.opcode = 0xc9 ∨ di.opcode = 0x76 ∨ di.opcode = 0xc3 ∨ nextPc ≤ pc then [di]
        else
          di :: disassembleFunctionLoop symbols readByte address fuel nextPc
            (bytesDone + di.length)
    else []

/-- `AgentApi::disassembleFunction`; each pass takes one byte at least. -/
def disassembleFunction (symbols : SymbolDatabase) (readByte : DisasmReadFn) (address : Word) :
    List DisassembledInstruction :=
  disassembleFunctionLoop symbols readByte address maxFuncSize address 0

/-- The addresses that one instruction of a function calls. -/
def FunctionInstruction.callees (instr : FunctionInstruction) : List Word :=
  let opcode := instr.bytes.getD 0 0
  (if isCallOpcode opcode && instr.length == 3 then
      [wordOf (instr.bytes.getD 1 0) (instr.bytes.getD 2 0)]
    else []) ++
    if isRstOpcode opcode then [XrefScan.restartTarget opcode] else []

/-- `FunctionContext`, without the fields that only a trace fills. -/
structure FunctionContext where
  /-- `address`. -/
  address : Word
  /-- `size`. -/
  size : Word
  /-- `name`. -/
  name : Text
  /-- `comment`. -/
  comment : Text
  /-- `instructions`. -/
  instructions : List FunctionInstruction
  /-- `callers`. -/
  callers : List Word
  /-- `callees`. -/
  callees : List Word
deriving DecidableEq, Repr

/-- `ctx.size`: the bytes up to the end of the last instruction. -/
def functionSize (address : Word) (instructions : List FunctionInstruction) : Word :=
  match instructions.getLast? with
  | some last => last.address + BitVec.ofNat 16 last.length - address
  | none => 0

namespace DebugBackend

variable {δ : Type}

/-- Reads change the record of accesses alone. -/
theorem readAll_eq (backend : DebugBackend δ) (addresses : List Word) : ∃ instrumentation,
    backend.readAll addresses = { backend with instrumentation } := by
  refine List.foldlRecOn (motive := fun after : DebugBackend δ => ∃ instrumentation,
    after = { backend with instrumentation }) addresses _ ⟨backend.instrumentation, rfl⟩
    fun after same address _ => ?_
  obtain ⟨instrumentation, rfl⟩ := same
  exact ⟨_, rfl⟩

theorem readAll_symbols (backend : DebugBackend δ) (addresses : List Word) :
    (backend.readAll addresses).symbols = backend.symbols := by
  obtain ⟨instrumentation, reads⟩ := backend.readAll_eq addresses
  rw [reads]

end DebugBackend

namespace AgentApi

variable {δ : Type}

/-- The answer of `getFunctionContext` from the references of a table. -/
def functionContext (api : AgentApi δ) (table : XrefTable) (address : Word) : FunctionContext :=
  let readByte := api.backend.readByte
  let symbols := api.backend.symbols
  let instructions :=
    (disassembleFunction symbols readByte address).map (·.functionInstruction)
  let sym := symbols.symbols address
  { address
    size := functionSize address instructions
    name := (sym.map (·.name)).getD (SymbolDatabase.autoName address)
    comment := (sym.map fun known => normalizeRdbText known.comment).getD []
    instructions
    callers :=
      ((table.xrefsTo address).map (·.source)).filter fun source =>
        isCallOpcode (readByte source)
    callees := instructions.flatMap (·.callees) }

/-- `AgentApi::getFunctionContext`. -/
def getFunctionContext (api : AgentApi δ) (address : Word) :
    AgentApi δ × AgentApiResult FunctionContext :=
  let built := api.ensureXrefsBuilt
  let readByte := built.backend.readByte
  (built.reading
      (decodeReads readByte (disassembleFunction built.backend.symbols readByte address) ++
        (built.table.xrefsTo address).map (·.source)),
    .ok (built.functionContext built.table address))

/-! ### What is current -/

/-- The interface as `rebuildXrefs` would leave it now. -/
def rebuilt (api : AgentApi δ) : AgentApi δ :=
  { api with table := api.table.rebuildXrefs api.backend.symbols api.backend.readByte }

/-- Every query uses, and so gives, what a scan made now would. -/
structure XrefsCurrent (api : AgentApi δ) : Prop where
  /-- The references. -/
  references : api.ensureXrefsBuilt.table.xrefs = api.rebuilt.table.xrefs
  /-- The edges of the call graph. -/
  edges : api.ensureXrefsBuilt.table.callGraph = api.rebuilt.table.callGraph
  /-- `getXrefs`. -/
  getXrefs : ∀ address, (api.getXrefs address).2 = (api.rebuilt.getXrefs address).2
  /-- `getCallGraph`. -/
  getCallGraph : ∀ address limit,
    (api.getCallGraph address limit).2 = (api.rebuilt.getCallGraph address limit).2
  /-- `getFunctionContext`. -/
  getFunctionContext : ∀ address,
    (api.getFunctionContext address).2 = (api.rebuilt.getFunctionContext address).2

/-- The cached scan is marked, or is the one that would be made now. -/
def Fresh (api : AgentApi δ) : Prop :=
  api.table.xrefsDirty = false →
    api.table.xrefs = api.rebuilt.table.xrefs ∧
      api.table.callTargets = api.rebuilt.table.callTargets

theorem Fresh.of_dirty {api : AgentApi δ} (dirty : api.table.xrefsDirty = true) : api.Fresh := by
  intro built
  rw [dirty] at built
  exact Bool.noConfusion built

/-- A step that leaves the table, the addresses of the symbols and the bytes alone keeps the
scan fresh. -/
theorem Fresh.of_same {api after : AgentApi δ} (fresh : api.Fresh)
    (table : after.table = api.table)
    (addresses : XrefTable.SameAddresses after.backend.symbols api.backend.symbols)
    (bytes : after.backend.readByte = api.backend.readByte) : after.Fresh := by
  have scan : after.table.scan after.backend.symbols after.backend.readByte =
      api.table.scan api.backend.symbols api.backend.readByte := by
    rw [bytes]
    exact XrefTable.scan_congr (congrArg XrefTable.regions table) addresses _
  intro built
  rw [table] at built
  have known := fresh built
  unfold rebuilt XrefTable.rebuildXrefs at known ⊢
  rw [scan, table]
  exact known

theorem ensureXrefsBuilt_dirty {api : AgentApi δ} (dirty : api.table.xrefsDirty = true) :
    api.ensureXrefsBuilt.table = api.rebuilt.table := by
  unfold ensureXrefsBuilt
  rw [if_pos dirty]
  rfl

theorem ensureXrefsBuilt_built {api : AgentApi δ} (built : api.table.xrefsDirty = false) :
    api.ensureXrefsBuilt = api := by
  unfold ensureXrefsBuilt
  rw [built]
  rfl

/-- Building the references changes neither the bytes nor the symbols. -/
theorem ensureXrefsBuilt_backend (api : AgentApi δ) :
    api.ensureXrefsBuilt.backend.readByte = api.backend.readByte ∧
      api.ensureXrefsBuilt.backend.symbols = api.backend.symbols := by
  unfold ensureXrefsBuilt
  split
  · exact ⟨api.backend.readAll_readByte _, api.backend.readAll_symbols _⟩
  · exact ⟨rfl, rfl⟩

/-- A function is described by the symbols, the bytes and the references of the table. -/
theorem functionContext_congr {api other : AgentApi δ}
    (bytes : api.backend.readByte = other.backend.readByte)
    (symbols : api.backend.symbols = other.backend.symbols) {table known : XrefTable}
    (references : table.xrefs = known.xrefs) (address : Word) :
    api.functionContext table address = other.functionContext known address := by
  have callers : table.xrefsTo address = known.xrefsTo address := by
    unfold XrefTable.xrefsTo
    rw [references]
  unfold functionContext
  rw [bytes, symbols, callers]

theorem rebuilt_built (api : AgentApi δ) : api.rebuilt.ensureXrefsBuilt = api.rebuilt :=
  ensureXrefsBuilt_built rfl

/-- Queries over a fresh scan are current. -/
theorem Fresh.current {api : AgentApi δ} (fresh : api.Fresh) : api.XrefsCurrent := by
  have same : api.ensureXrefsBuilt.table.xrefs = api.rebuilt.table.xrefs ∧
      api.ensureXrefsBuilt.table.callTargets = api.rebuilt.table.callTargets := by
    cases dirty : api.table.xrefsDirty with
    | true =>
      rw [ensureXrefsBuilt_dirty dirty]
      exact ⟨rfl, rfl⟩
    | false =>
      rw [ensureXrefsBuilt_built dirty]
      exact fresh dirty
  have graph : api.ensureXrefsBuilt.table.callGraph = api.rebuilt.table.callGraph := by
    unfold XrefTable.callGraph
    rw [same.1, same.2]
  refine ⟨same.1, graph, fun address => ?_, fun address limit => ?_, fun address => ?_⟩
  · unfold AgentApi.getXrefs XrefTable.xrefsTo XrefTable.xrefsFrom
    rw [rebuilt_built]
    dsimp only
    rw [same.1]
  · unfold AgentApi.getCallGraph
    rw [rebuilt_built]
    dsimp only
    rw [graph]
  · have kept := api.ensureXrefsBuilt_backend
    unfold AgentApi.getFunctionContext
    rw [rebuilt_built]
    exact congrArg Except.ok (functionContext_congr kept.1 kept.2 same.1 address)

end AgentApi

/-! ### Sessions -/

/-- The commands that end in `invalidateXrefs`: a symbol appears or disappears. -/
def SymbolDatabase.invalidatesXrefs (db : SymbolDatabase) : Command → Bool
  | .createFunction address _ | .addLabel address _ => !(db.symbols address).isSome
  | .removeSymbol address => (db.symbols address).isSome
  | _ => false

/-- What can happen to the references. -/
inductive XrefAction
  /-- A command: of symbols, a write of memory, a step, a trace or any other. -/
  | command (command : Command)
  /-- `SymbolDatabase::setRegion`. -/
  | setRegion (start last : Word) (type : MemoryRegionType)
  /-- `SymbolDatabase::removeRegion`. -/
  | removeRegion (start : Word)
  /-- `DebugBackend::loadRom`. -/
  | loadRom (files : AnnotationFiles) (path : Text) (org : Nat)
  /-- A frame of instructions is executed, with the flags raised before it. -/
  | frame (signals : Signals)
  /-- `AgentApi::getXrefs`. -/
  | getXrefs (address : Word)
  /-- `AgentApi::getCallGraph`. -/
  | getCallGraph (address : Option Word) (limit : Nat)
  /-- `AgentApi::getFunctionContext`. -/
  | getFunctionContext (address : Word)

namespace AgentApi

variable {δ : Type} [Chips δ]

/-- `DebugBackend::executeCommand`, with the flag. -/
def executeCommand (api : AgentApi δ) (command : Command) : AgentApi δ where
  backend := (api.backend.executeCommand command).1
  table :=
    if api.backend.symbols.invalidatesXrefs command then api.table.invalidateXrefs else api.table

/-- `DebugBackend::loadRom`, with the flag that it sets last. -/
def loadRom (api : AgentApi δ) (files : AnnotationFiles) (path : Text) (org : Nat) :
    AgentApi δ :=
  let loaded := api.backend.loadRom files path org
  { backend := loaded.1
    table := if loaded.2 then api.table.invalidateXrefs else api.table }

/-- The interface after an action. -/
def perform (api : AgentApi δ) : XrefAction → AgentApi δ
  | .command command => api.executeCommand command
  | .setRegion start last type => { api with table := (api.table.setRegion start last type).1 }
  | .removeRegion start => { api with table := (api.table.removeRegion start).1 }
  | .loadRom files path org => api.loadRom files path org
  | .frame signals => { api with backend := (api.backend.enterFrame signals).executeFrame.2 }
  | .getXrefs address => (api.getXrefs address).1
  | .getCallGraph address limit => (api.getCallGraph address limit).1
  | .getFunctionContext address => (api.getFunctionContext address).1

/-- The action leaves the bytes that a reader sees alone while a scan is kept. Only commands and
frames have to: a load sets the flag, and nothing else changes memory. -/
def SparesBytes (api : AgentApi δ) : XrefAction → Prop
  | .command command =>
    api.table.xrefsDirty = false →
      (api.backend.executeCommand command).1.readByte = api.backend.readByte
  | .frame signals =>
    api.table.xrefsDirty = false →
      (api.backend.enterFrame signals).executeFrame.2.readByte = api.backend.readByte
  | _ => True

/-- One step of a session that spares the bytes of a kept scan. -/
def SparingStep (api : AgentApi δ) (action : XrefAction) (after : AgentApi δ) : Prop :=
  api.SparesBytes action ∧ after = api.perform action

omit [Chips δ] in
/-- A symbol that replaces the one at its address leaves the same addresses with a symbol. -/
theorem sameAddresses_set {db : SymbolDatabase} {address : Word} {sym changed : DebugSymbol}
    (found : db.symbols address = some sym) (place : changed.address = address) :
    XrefTable.SameAddresses (db.set changed) db := by
  intro addr
  unfold SymbolDatabase.set
  dsimp only
  rw [place]
  by_cases here : addr = address
  · rw [here, Function.update_self, found]
    rfl
  · rw [Function.update_of_ne here]

omit [Chips δ] in
/-- Adding a symbol where there is one changes nothing. -/
theorem sameAddresses_refused {db : SymbolDatabase} {address : Word}
    (present : (db.symbols address).isSome = true) (name : Text) (type : SymbolType) :
    XrefTable.SameAddresses (db.addSymbol address name type).1 db := by
  unfold SymbolDatabase.addSymbol
  rw [if_pos present]
  exact fun _ => rfl

/-- A command that does not set the flag leaves the same addresses with a symbol. -/
theorem executeCommand_addresses (backend : DebugBackend δ) {command : Command}
    (silent : backend.symbols.invalidatesXrefs command = false) :
    XrefTable.SameAddresses (backend.executeCommand command).1.symbols backend.symbols := by
  by_cases other : command.annotates = false
  · intro addr
    rw [(backend.executeCommand_sameStores command other).1]
  · cases command with
    | createFunction address name =>
      have present : (backend.symbols.symbols address).isSome = true := by
        simpa [SymbolDatabase.invalidatesXrefs] using silent
      exact sameAddresses_refused present name .function
    | addLabel address name =>
      have present : (backend.symbols.symbols address).isSome = true := by
        simpa [SymbolDatabase.invalidatesXrefs] using silent
      exact sameAddresses_refused present name .label
    | renameSymbol address name =>
      show XrefTable.SameAddresses (backend.symbols.renameSymbol address name).1 _
      unfold SymbolDatabase.renameSymbol
      split
      · exact fun _ => rfl
      · rename_i sym found
        exact sameAddresses_set found (backend.symbols.keyed address sym found)
    | setComment address comment =>
      show XrefTable.SameAddresses (backend.symbols.setComment address comment).1 _
      unfold SymbolDatabase.setComment
      split
      · exact fun _ => rfl
      · rename_i sym found
        exact sameAddresses_set found (backend.symbols.keyed address sym found)
    | removeSymbol address =>
      intro addr
      show (Function.update backend.symbols.symbols address none addr).isSome = _
      by_cases here : addr = address
      · rw [here, Function.update_self]
        exact silent.symm
      · rw [Function.update_of_ne here]
    | _ => exact absurd rfl other

theorem Fresh.executeCommand {api : AgentApi δ} (fresh : api.Fresh) {command : Command}
    (spares : api.SparesBytes (.command command)) : (api.executeCommand command).Fresh := by
  cases marks : api.backend.symbols.invalidatesXrefs command with
  | true =>
    refine Fresh.of_dirty ?_
    unfold AgentApi.executeCommand
    dsimp only
    rw [if_pos marks]
    rfl
  | false =>
    have table : (api.executeCommand command).table = api.table := by
      unfold AgentApi.executeCommand
      dsimp only
      rw [marks]
      rfl
    cases dirty : api.table.xrefsDirty with
    | true => exact Fresh.of_dirty (table ▸ dirty)
    | false =>
      exact fresh.of_same table (executeCommand_addresses api.backend marks) (spares dirty)

/-- A load sets the flag, or fails and changes neither symbols nor bytes. -/
theorem Fresh.loadRom {api : AgentApi δ} (fresh : api.Fresh) (files : AnnotationFiles)
    (path : Text) (org : Nat) : (api.loadRom files path org).Fresh := by
  unfold AgentApi.loadRom DebugBackend.loadRom DebugBackend.executeCommand
    DebugAdapter.loadRom
  dsimp only
  by_cases missing : api.backend.target.files path = []
  · rw [if_pos missing]
    exact fresh.of_same rfl (fun _ => rfl) rfl
  · rw [if_neg missing]
    exact Fresh.of_dirty rfl

omit [Chips δ] in
/-- A query keeps the scan fresh: it makes a new one, or uses the old. -/
theorem Fresh.ensureXrefsBuilt {api : AgentApi δ} (fresh : api.Fresh) :
    api.ensureXrefsBuilt.Fresh := by
  cases dirty : api.table.xrefsDirty with
  | false =>
    rw [ensureXrefsBuilt_built dirty]
    exact fresh
  | true =>
    have table := ensureXrefsBuilt_dirty dirty
    have kept := api.ensureXrefsBuilt_backend
    have scan : api.ensureXrefsBuilt.table.scan api.ensureXrefsBuilt.backend.symbols
        api.ensureXrefsBuilt.backend.readByte =
          api.table.scan api.backend.symbols api.backend.readByte := by
      rw [table, kept.1, kept.2]
      exact XrefTable.scan_congr rfl (fun _ => rfl) _
    intro _
    unfold rebuilt XrefTable.rebuildXrefs
    rw [scan, table]
    exact ⟨rfl, rfl⟩

omit [Chips δ] in
theorem Fresh.reading {api : AgentApi δ} (fresh : api.Fresh) (addresses : List Word) :
    (api.reading addresses).Fresh := by
  refine fresh.of_same rfl (fun addr => ?_) (api.backend.readAll_readByte addresses)
  show ((api.backend.readAll addresses).symbols.symbols addr).isSome = _
  rw [api.backend.readAll_symbols addresses]

theorem frame_symbols (backend : DebugBackend δ) (signals : Signals) :
    (backend.enterFrame signals).executeFrame.2.symbols = backend.symbols := by
  show (backend.enterFrame signals).symbols = backend.symbols
  unfold DebugBackend.enterFrame DebugBackend.poll
  split
  · rfl
  · split
    · rfl
    · split
      · rfl
      · rfl

/-- A step that spares the bytes keeps the scan fresh. -/
theorem Fresh.step {api : AgentApi δ} (fresh : api.Fresh) {action : XrefAction}
    (spares : api.SparesBytes action) : (api.perform action).Fresh := by
  cases action with
  | command command => exact fresh.executeCommand spares
  | setRegion start last type =>
    obtain dirty | same := api.table.setRegion_marks start last type
    · exact Fresh.of_dirty dirty
    · exact fresh.of_same same (fun _ => rfl) rfl
  | removeRegion start =>
    obtain dirty | same := api.table.removeRegion_marks start
    · exact Fresh.of_dirty dirty
    · exact fresh.of_same same (fun _ => rfl) rfl
  | loadRom files path org => exact fresh.loadRom files path org
  | frame signals =>
    cases dirty : api.table.xrefsDirty with
    | true => exact Fresh.of_dirty dirty
    | false =>
      refine fresh.of_same rfl (fun addr => ?_) (spares dirty)
      show ((api.backend.enterFrame signals).executeFrame.2.symbols.symbols addr).isSome = _
      rw [frame_symbols]
  | getXrefs address => exact fresh.ensureXrefsBuilt
  | getCallGraph address limit => exact fresh.ensureXrefsBuilt
  | getFunctionContext address => exact fresh.ensureXrefsBuilt.reading _

/-- Queries are current in every state of a session whose steps spare the bytes of a kept
scan. -/
theorem xrefs_current {api final : AgentApi δ} (unscanned : api.table.xrefsDirty = true)
    {actions : List XrefAction} (run : Transition.Run SparingStep api actions final) :
    final.XrefsCurrent := by
  have fresh : final.Fresh := run.invariant
    (fun _ _ _ fresh step => step.2 ▸ Fresh.step fresh step.1) (Fresh.of_dirty unscanned)
  exact fresh.current

end AgentApi

namespace AgentApi

variable {δ : Type} [Chips δ]

/-- Without a scan to keep, every command is free. -/
theorem command_spares {api : AgentApi δ} (dirty : api.table.xrefsDirty = true)
    (command : Command) : api.SparesBytes (.command command) := by
  intro built
  rw [dirty] at built
  exact Bool.noConfusion built

theorem addLabel_spares (api : AgentApi δ) (address : Word) (name : Text) :
    api.SparesBytes (.command (.addLabel address name)) := fun _ => rfl

theorem getXrefs_spares (api : AgentApi δ) (address : Word) :
    api.SparesBytes (.getXrefs address) := trivial

/-- A label is added after a query over memory that was written before it. -/
theorem xrefs_current_labelled :
    (((started.perform (.command (.memoryWrite 0 [0xcd, 0x00, 0x02]))).perform
      (.getXrefs 0x0200)).perform (.command (.addLabel 0x0200 []))).XrefsCurrent :=
  @xrefs_current Unit _ started _ rfl
    [.command (.memoryWrite 0 [0xcd, 0x00, 0x02]), .getXrefs 0x0200, .command (.addLabel 0x0200 [])]
    (.cons ⟨command_spares rfl _, rfl⟩
      (.cons ⟨getXrefs_spares _ 0x0200, rfl⟩ (.cons ⟨addLabel_spares _ 0x0200 [], rfl⟩ (.nil _))))

end AgentApi

/-! ### A stale answer -/

theorem DebugBackend.memoryWrite_paused {δ : Type} [Chips δ] {backend : DebugBackend δ}
    (paused : backend.state = .paused) (address : Word) (writeData : List Byte) :
    (backend.executeCommand (.memoryWrite address writeData)).1 =
      backend.writeMemory address writeData := by
  show (backend.whenPaused _ _).1 = _
  unfold whenPaused
  rw [if_pos paused]

namespace XrefScan

/-- Every reference is kept. -/
def Extends (after before : XrefScan) : Prop := before.xrefs ⊆ after.xrefs

theorem Extends.refl (scan : XrefScan) : scan.Extends scan := List.Subset.refl _

theorem Extends.trans {third second first : XrefScan} (later : third.Extends second)
    (earlier : second.Extends first) : third.Extends first :=
  List.Subset.trans earlier later

theorem record_extends (scan : XrefScan) (source target : Word) (isCall : Bool) :
    (scan.record source target isCall).Extends scan := by
  unfold Extends record
  dsimp only
  split
  · exact List.Subset.refl _
  · exact List.subset_append_left _ _

theorem decodeAt_extends (readByte : DisasmReadFn) (scan : XrefScan) (addr : Word)
    (opcode : Byte) (len : Nat) : (scan.decodeAt readByte addr opcode len).Extends scan := by
  unfold decodeAt
  split
  · exact record_extends _ _ _ true
  · split
    · exact record_extends _ _ _ false
    · split
      · exact record_extends _ _ _ true
      · exact .refl scan

theorem walk_extends (readByte : DisasmReadFn) (last : Word) (fuel : Nat) :
    ∀ (addr : Word) (scan : XrefScan), (walk readByte last fuel addr scan).Extends scan := by
  induction fuel with
  | zero => exact fun _ scan => .refl scan
  | succ fuel inductionHypothesis =>
    intro addr scan
    unfold walk
    have decoded := (scan.read [addr]).decodeAt_extends readByte addr (readByte addr)
      (getLength (readByte addr))
    split
    · dsimp only
      split
      · exact decoded
      · exact (inductionHypothesis _ _).trans decoded
    · exact .refl scan

theorem decodeFrom_extends (readByte : DisasmReadFn) (scanRanges : List (Word × Word))
    (scan : XrefScan) (seed : Word) : (decodeFrom readByte scanRanges scan seed).Extends scan := by
  unfold decodeFrom
  split
  · exact .refl scan
  · exact walk_extends ..

theorem recoverAt_extends (readByte : DisasmReadFn)
    (targetIsPlausible : XrefScan → Word → Bool) (scan : XrefScan) (addr : Word) :
    (recoverAt readByte targetIsPlausible scan addr).Extends scan := by
  unfold recoverAt
  split
  · exact .refl scan
  · dsimp only
    split
    · split
      · exact record_extends _ _ _ true
      · exact .refl scan
    · split
      · split
        · exact record_extends _ _ _ true
        · exact .refl scan
      · exact .refl scan

/-- Folding passes that keep references keeps them. -/
theorem foldl_extends {pass : XrefScan → Word → XrefScan}
    (keeps : ∀ scan addr, (pass scan addr).Extends scan) (scan : XrefScan)
    (addresses : List Word) : (addresses.foldl pass scan).Extends scan := by
  refine List.foldlRecOn (motive := fun after : XrefScan => after.Extends scan) addresses pass
    (.refl scan) fun after kept addr _ => ?_
  exact (keeps after addr).trans kept

/-- A walk records the call that it starts at. -/
theorem walk_finds {readByte : DisasmReadFn} (call : readByte 0 = 0xcd) {last : Word}
    (fuel : Nat) (inside : 0 ≤ last) :
    { source := 0, target := operandWord readByte 0 } ∈
      (walk readByte last (fuel + 1) 0 .start).xrefs := by
  unfold walk
  rw [if_pos inside, call]
  dsimp only
  rw [if_neg (by decide)]
  exact walk_extends readByte last fuel _ _ (List.mem_singleton_self _)

/-- A scan of cleared memory finds nothing. -/
theorem walk_cleared {readByte : DisasmReadFn} (cleared : ∀ addr, readByte addr = 0)
    (last : Word) (fuel : Nat) :
    ∀ (addr : Word) (scan : XrefScan), (walk readByte last fuel addr scan).xrefs = scan.xrefs := by
  induction fuel with
  | zero => exact fun _ _ => rfl
  | succ fuel inductionHypothesis =>
    intro addr scan
    unfold walk
    have decoded : ((scan.read [addr]).decodeAt readByte addr 0 (getLength 0)).xrefs =
      scan.xrefs := rfl
    rw [cleared addr]
    split
    · dsimp only
      split
      · exact decoded
      · exact (inductionHypothesis _ _).trans decoded
    · rfl

end XrefScan

namespace XrefTable

/-- The first pass extends the walk from address zero when there are no code regions. -/
theorem firstPass_extends {table : XrefTable} (unclassified : table.codeRanges = [])
    (symbols : SymbolDatabase) (readByte : DisasmReadFn) :
    (table.firstPass symbols readByte).Extends
      (XrefScan.walk readByte 0xffff 65536 0 .start) := by
  have ranges : table.scanRanges = [(0x0000, 0xffff)] := by
    unfold scanRanges
    rw [unclassified]
    rfl
  obtain ⟨rest, addresses⟩ := allAddresses_eq
  unfold firstPass XrefTable.seeds
  rw [ranges, addresses, List.filter_cons_of_pos rfl, List.foldl_cons]
  exact XrefScan.foldl_extends (XrefScan.decodeFrom_extends readByte _) _ _

/-- A call at address zero is found when there are no code regions. -/
theorem scan_finds {table : XrefTable} (unclassified : table.codeRanges = [])
    (symbols : SymbolDatabase) {readByte : DisasmReadFn} (call : readByte 0 = 0xcd) :
    { source := 0, target := XrefScan.operandWord readByte 0 } ∈
      (table.scan symbols readByte).xrefs := by
  have first : (table.scan symbols readByte).Extends (table.firstPass symbols readByte) := by
    unfold XrefTable.scan
    dsimp only
    split
    · exact XrefScan.foldl_extends (XrefScan.recoverAt_extends readByte _) _ _
    · exact .refl _
  have found := XrefScan.walk_finds call 65535 (show 0 ≤ (0xffff : Word) by decide)
  exact first (firstPass_extends unclassified symbols readByte found)

/-- Without regions and symbols a scan of cleared memory finds nothing. -/
theorem scan_cleared {table : XrefTable} (unclassified : table.codeRanges = [])
    {readByte : DisasmReadFn} (cleared : ∀ addr, readByte addr = 0) :
    (table.scan .empty readByte).xrefs = [] := by
  have unknown : table.knowsTargets .empty = false := by
    unfold knowsTargets
    rw [unclassified, List.isEmpty_nil, Bool.not_true, Bool.false_or]
    exact List.any_eq_false.mpr fun _ _ => Bool.false_ne_true
  have first : (table.firstPass .empty readByte).xrefs = [] := by
    unfold firstPass
    refine List.foldlRecOn (motive := fun scan : XrefScan => scan.xrefs = []) _ _ rfl
      fun scan nothing seed _ => ?_
    unfold XrefScan.decodeFrom
    split
    · exact nothing
    · exact (XrefScan.walk_cleared cleared _ _ _ _).trans nothing
  unfold XrefTable.scan
  dsimp only
  rw [unknown]
  exact first

end XrefTable

namespace AgentApi

variable {δ : Type} [Chips δ]

omit [Chips δ] in
/-- Reading for a query changes the record of accesses alone. -/
theorem ensureXrefsBuilt_reads (api : AgentApi δ) : ∃ instrumentation,
    api.ensureXrefsBuilt.backend = { api.backend with instrumentation } := by
  unfold ensureXrefsBuilt
  split
  · exact api.backend.readAll_eq _
  · exact ⟨api.backend.instrumentation, rfl⟩

omit [Chips δ] in
/-- The scan of cleared memory is kept when the table is, whatever is in memory by then. -/
theorem stale_of_call {api after : AgentApi δ} (unscanned : api.table.xrefsDirty = true)
    (unclassified : api.table.codeRanges = []) (unnamed : api.backend.symbols = .empty)
    (cleared : ∀ addr, api.backend.readByte addr = 0)
    (table : after.table = api.ensureXrefsBuilt.table) (call : after.backend.readByte 0 = 0xcd) :
    (∀ address, (after.getXrefs address).2 = .ok []) ∧ ¬ after.XrefsCurrent := by
  rw [ensureXrefsBuilt_dirty unscanned] at table
  have nothing : after.table.xrefs = [] := by
    rw [table]
    unfold rebuilt
    rw [unnamed]
    exact XrefTable.scan_cleared unclassified cleared
  have built : after.ensureXrefsBuilt = after := by
    refine ensureXrefsBuilt_built ?_
    rw [table]
    rfl
  have regions : after.table.codeRanges = [] := by
    rw [table]
    exact unclassified
  refine ⟨fun address => ?_, fun current => ?_⟩
  · unfold AgentApi.getXrefs XrefTable.xrefsTo XrefTable.xrefsFrom
    rw [built]
    dsimp only
    rw [nothing]
    rfl
  · have found := XrefTable.scan_finds regions after.backend.symbols call
    have references := current.references
    rw [built, nothing] at references
    have listed : _ ∈ after.rebuilt.table.xrefs := found
    rw [← references] at listed
    exact absurd listed List.not_mem_nil

theorem perform_command (api : AgentApi δ) (command : Command) :
    api.perform (.command command) = api.executeCommand command := rfl

/-- A write of memory leaves the table of the references alone. -/
theorem memoryWrite_table (api : AgentApi δ) (address : Word) (writeData : List Byte) :
    (api.executeCommand (.memoryWrite address writeData)).table = api.table := rfl

/-- The debugger writes a call over the first bytes of a program that was scanned. -/
def overwritten : AgentApi Unit :=
  (started.perform (.getXrefs 0x0200)).perform (.command (.memoryWrite 0 [0xcd, 0x00, 0x02]))

/-- The bytes of the call, after a query that changed the record alone. -/
theorem overwritten_call : overwritten.backend.readByte 0 = 0xcd := by
  obtain ⟨instrumentation, reads⟩ := ensureXrefsBuilt_reads started
  have written : (DebugBackend.executeCommand { started.backend with instrumentation }
      (.memoryWrite 0 [0xcd, 0x00, 0x02])).1.readByte 0 = 0xcd := by
    rw [DebugBackend.memoryWrite_paused rfl]
    unfold DebugBackend.readByte DebugBackend.readMemory DebugBackend.writeMemory
    simp only [List.zipIdx_cons, List.zipIdx_nil, List.foldl_cons, List.foldl_nil]
    decide
  have first : (started.perform (.getXrefs 0x0200)).backend = started.ensureXrefsBuilt.backend :=
    rfl
  unfold overwritten
  rw [perform_command]
  unfold AgentApi.executeCommand
  rw [first, reads]
  exact written

/-- The call is in memory and no query knows of it. -/
theorem xrefs_stale :
    started.table.xrefsDirty = true ∧ overwritten.backend.readByte 0 = 0xcd ∧
      (overwritten.getXrefs 0x0200).2 = .ok [] ∧ ¬ overwritten.XrefsCurrent := by
  have stale := @stale_of_call Unit started overwritten rfl rfl rfl (fun _ => rfl)
    (memoryWrite_table _ _ _) overwritten_call
  exact ⟨rfl, overwritten_call, stale.1 0x0200, stale.2⟩

end AgentApi

end VectorDebugger

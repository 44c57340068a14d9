import VectorDebugger.Debugger.AgentApi

/-!
# Queries and the recorded activity

A query should leave the record of the program's own accesses alone. The byte reader of every
query fires the read callback, and the instrumentation cannot tell such a read from one of the
program: it counts the read, logs it, and may take it for an opcode fetch. So a query leaves the
record alone exactly when it reads nothing or nothing is recorded.
-/

namespace VectorDebugger

namespace Instrumentation

/-- The recorded activity is the same. -/
structure SameActivity (after inst : Instrumentation) : Prop where
  /-- The memory history is the same. -/
  memHistory : after.memHistory = inst.memHistory
  /-- The statistics of every address are the same. -/
  memStats : after.memStats = inst.memStats
  /-- The access map is the same. -/
  runtimeAccessMap : after.runtimeAccessMap = inst.runtimeAccessMap
  /-- The access log is the same. -/
  runtimeAccessLog : after.runtimeAccessLog = inst.runtimeAccessLog
  /-- The execution counts are the same. -/
  executeCount : after.executeCount = inst.executeCount
  /-- The instruction number is the same. -/
  instructionSequence : after.instructionSequence = inst.instructionSequence
  /-- The byte counter is the same. -/
  fetchRemaining : after.fetchRemaining = inst.fetchRemaining

theorem SameActivity.refl (inst : Instrumentation) : inst.SameActivity inst :=
  ⟨rfl, rfl, rfl, rfl, rfl, rfl, rfl⟩

theorem onMemoryRead_disabled {inst : Instrumentation}
    (disabled : inst.instrumentationEnabled = false) (virt phys : Nat) (stack : Bool)
    (value : Byte) (pc : Word) : inst.onMemoryRead virt phys stack value pc = inst := by
  unfold onMemoryRead
  rw [disabled]
  rfl

theorem onMemoryRead_enabled (inst : Instrumentation) (virt phys : Nat) (stack : Bool)
    (value : Byte) (pc : Word) :
    (inst.onMemoryRead virt phys stack value pc).instrumentationEnabled =
      inst.instrumentationEnabled :=
  inst.observe_instrumentationEnabled (.read virt phys stack false value pc)

/-- A read that is recorded counts once, at its own address. -/
theorem onMemoryRead_reads {inst : Instrumentation} (enabled : inst.instrumentationEnabled = true)
    (virt phys : Nat) (stack : Bool) (value : Byte) (pc addr : Word) :
    ((inst.onMemoryRead virt phys stack value pc).memStats addr).reads =
      (inst.memStats addr).reads + if addr = BitVec.ofNat 16 virt then 1 else 0 := by
  have detected : (inst.detect virt stack value pc).memStats = inst.memStats := by
    unfold detect
    split
    · rfl
    · rfl
  unfold onMemoryRead
  rw [enabled]
  by_cases here : addr = BitVec.ofNat 16 virt
  · rw [if_pos here, here, ← detected]
    simp only [Bool.not_true, Bool.false_eq_true, if_false, recordRead, logAccess,
      Function.update_self]
  · rw [if_neg here, ← detected]
    simp only [Bool.not_true, Bool.false_eq_true, if_false, recordRead, logAccess,
      Function.update_of_ne here, Nat.add_zero]

end Instrumentation

namespace DebugBackend

variable {δ : Type}

/-- Reads of an address counted so far. -/
def readsAt (backend : DebugBackend δ) (addr : Word) : Nat :=
  (backend.instrumentation.memStats addr).reads

theorem readAll_target (addresses : List Word) :
    ∀ backend : DebugBackend δ, (backend.readAll addresses).target = backend.target := by
  induction addresses with
  | nil => exact fun _ => rfl
  | cons address addresses inductionHypothesis =>
    exact fun backend => inductionHypothesis (backend.readMemory address).2

/-- A reader returns the same bytes however much was read before. -/
theorem readAll_readByte (backend : DebugBackend δ) (addresses : List Word) :
    (backend.readAll addresses).readByte = backend.readByte := by
  unfold readByte readMemory
  rw [readAll_target]

/-- While nothing is recorded, reads have no effect at all. -/
theorem readAll_disabled {backend : DebugBackend δ}
    (disabled : backend.instrumentation.instrumentationEnabled = false) (addresses : List Word) :
    backend.readAll addresses = backend := by
  induction addresses with
  | nil => rfl
  | cons address addresses inductionHypothesis =>
    have unread : (backend.readMemory address).2 = backend := by
      unfold readMemory
      dsimp only
      rw [Instrumentation.onMemoryRead_disabled disabled]
    unfold readAll at inductionHypothesis ⊢
    rw [List.foldl_cons, unread]
    exact inductionHypothesis

theorem readsAt_readMemory {backend : DebugBackend δ}
    (enabled : backend.instrumentation.instrumentationEnabled = true) (address addr : Word) :
    (backend.readMemory address).2.readsAt addr =
      backend.readsAt addr + if addr = address then 1 else 0 := by
  have counted := Instrumentation.onMemoryRead_reads enabled address.toNat
    (backend.target.board.machine.memory.read address.toNat false).2 false
    (backend.target.board.machine.memory.read address.toNat false).1
    backend.target.board.machine.cpu.pc addr
  rw [BitVec.ofNat_toNat, BitVec.setWidth_eq] at counted
  exact counted

/-- Every read of an address is counted there. -/
theorem readsAt_readAll (addresses : List Word) :
    ∀ {backend : DebugBackend δ}, backend.instrumentation.instrumentationEnabled = true →
      ∀ addr, (backend.readAll addresses).readsAt addr =
        backend.readsAt addr + addresses.count addr := by
  induction addresses with
  | nil => exact fun _ _ => rfl
  | cons address addresses inductionHypothesis =>
    intro backend enabled addr
    have still : (backend.readMemory address).2.instrumentation.instrumentationEnabled = true :=
      (Instrumentation.onMemoryRead_enabled ..).trans enabled
    have rest := inductionHypothesis still addr
    rw [readsAt_readMemory enabled] at rest
    have split := List.count_cons (a := addr) (b := address) (l := addresses)
    simp only [beq_iff_eq, eq_comm (a := address)] at split
    change ((backend.readMemory address).2.readAll addresses).readsAt addr = _
    omega

/-- Reads leave the recorded activity alone exactly when there are none, or nothing is
recorded. -/
theorem readAll_sameActivity_iff (backend : DebugBackend δ) (addresses : List Word) :
    (backend.readAll addresses).instrumentation.SameActivity backend.instrumentation ↔
      backend.instrumentation.instrumentationEnabled = false ∨ addresses = [] := by
  constructor
  · intro same
    by_contra neither
    rw [not_or, Bool.not_eq_false] at neither
    obtain ⟨address, rest, list⟩ := List.exists_cons_of_ne_nil neither.2
    have counted := readsAt_readAll addresses neither.1 address
    have uncounted : (backend.readAll addresses).readsAt address = backend.readsAt address := by
      unfold readsAt
      rw [same.memStats]
    rw [list, List.count_cons_self] at counted
    rw [list] at uncounted
    omega
  · rintro (disabled | none)
    · rw [readAll_disabled disabled]
      exact .refl _
    · rw [none]
      exact .refl _

end DebugBackend

/-- To decode is to read. -/
theorem disassembleReads_ne_nil (readByte : DisasmReadFn) (address : Word) :
    disassembleReads readByte address ≠ [] :=
  List.append_ne_nil_of_left_ne_nil (List.cons_ne_nil _ _) _

theorem decodeReads_cons (readByte : DisasmReadFn) (di : DisassembledInstruction)
    (decoded : List DisassembledInstruction) : decodeReads readByte (di :: decoded) ≠ [] := by
  unfold decodeReads
  rw [List.flatMap_cons]
  exact List.append_ne_nil_of_left_ne_nil (disassembleReads_ne_nil readByte di.address) _

theorem disassembleLoop_succ (readByte : DisasmReadFn) (count : Nat) (pc : Word) :
    ∃ di rest, disassembleLoop readByte (count + 1) pc = di :: rest := by
  unfold disassembleLoop
  dsimp only
  split
  · exact ⟨_, _, rfl⟩
  · exact ⟨_, _, rfl⟩

/-- A sweep of a range that is not empty decodes something. -/
theorem linearSweep_succ (readByte : DisasmReadFn) {rangeEnd currentAddr : Nat}
    (room : currentAddr < rangeEnd) (fuel : Nat) :
    let swept := linearSweep readByte rangeEnd (fuel + 1) currentAddr
    ∃ di rest, swept.1 ++ swept.2.toList = di :: rest := by
  unfold linearSweep
  rw [if_pos room]
  dsimp only
  split
  · exact ⟨_, _, rfl⟩
  · exact ⟨_, _, rfl⟩

theorem firstOccurrences_cons (ep : Word) (entryPoints : List Word) :
    firstOccurrences (ep :: entryPoints) ≠ [] := by
  unfold firstOccurrences
  rw [List.foldl_cons]
  refine List.foldlRecOn (motive := fun kept : List Word => kept ≠ []) _ _ (List.cons_ne_nil ep [])
    fun kept some other _ => ?_
  split
  · exact some
  · exact List.append_ne_nil_of_left_ne_nil some _

namespace CodeAnalysis

theorem visit_instructions (readByte : DisasmReadFn) {analysis : CodeAnalysis}
    (decoded : analysis.instructions ≠ []) (addr : Word) :
    (analysis.visit readByte addr).instructions ≠ [] := by
  obtain ⟨conflicts, same⟩ | ⟨-, -, recorded⟩ := analysis.visit_spec readByte addr
  · rw [same]
    exact decoded
  · rw [recorded]
    exact List.append_ne_nil_of_left_ne_nil decoded _

theorem loop_instructions (readByte : DisasmReadFn) (maxInstructions fuel : Nat) :
    ∀ {analysis : CodeAnalysis}, analysis.instructions ≠ [] →
      (analysis.loop readByte maxInstructions fuel).instructions ≠ [] := by
  induction fuel with
  | zero => exact fun decoded => decoded
  | succ fuel inductionHypothesis =>
    intro analysis decoded
    unfold loop
    cases analysis.workQueue with
    | nil => exact decoded
    | cons addr rest =>
      dsimp only
      split
      · refine inductionHypothesis (visit_instructions readByte ?_ addr)
        exact decoded
      · exact decoded

/-- An analysis decodes its first entry point. -/
theorem start_decodes (readByte : DisasmReadFn) {entryPoints : List Word}
    (entries : entryPoints ≠ []) {maxInstructions : Nat} (room : 0 < maxInstructions) :
    ((start entryPoints).loop readByte maxInstructions (passBound entryPoints)).instructions
      ≠ [] := by
  obtain ⟨ep, rest, rfl⟩ := List.exists_cons_of_ne_nil entries
  have positive : passBound (ep :: rest) ≠ 0 := by
    unfold passBound
    rw [List.length_cons]
    exact Nat.ne_of_gt (Nat.add_pos_left (Nat.succ_pos _) _)
  obtain ⟨fuel, bound⟩ := Nat.exists_eq_succ_of_ne_zero positive
  rw [bound]
  unfold loop start
  dsimp only
  rw [List.length_nil, if_pos room]
  refine loop_instructions readByte maxInstructions fuel ?_
  exact List.cons_ne_nil _ _

end CodeAnalysis

theorem analysisReads_ne_nil (readByte : DisasmReadFn) {entryPoints : List Word}
    (entries : entryPoints ≠ []) {maxInstructions : Nat} (room : 0 < maxInstructions) :
    analysisReads entryPoints readByte maxInstructions ≠ [] := by
  obtain ⟨ep, rest, rfl⟩ := List.exists_cons_of_ne_nil entries
  have decoded := CodeAnalysis.start_decodes readByte (firstOccurrences_cons ep rest) room
  obtain ⟨inst, others, list⟩ := List.exists_cons_of_ne_nil decoded
  unfold analysisReads
  dsimp only
  rw [list, List.flatMap_cons]
  exact List.append_ne_nil_of_left_ne_nil (disassembleReads_ne_nil readByte inst.address) _

/-- The stack pointer itself is always a slot. -/
theorem stackSlots_pos (sp : Word) {limit : Nat} (some : 0 < limit) :
    ∃ rest, AgentApi.stackSlots sp limit = sp.toNat :: rest := by
  obtain ⟨count, bound⟩ : ∃ count, min limit AgentLimits.maxStackLimit = count + 1 :=
    ⟨min limit AgentLimits.maxStackLimit - 1, by unfold AgentLimits.maxStackLimit; omega⟩
  have inside : sp.toNat ≤ 0xffff := Nat.le_of_lt_succ sp.isLt
  unfold AgentApi.stackSlots
  rw [bound, List.range_succ_eq_map, List.map_cons, List.takeWhile_cons_of_pos (by simpa)]
  exact ⟨_, rfl⟩

/-- The calls in question, with their arguments. -/
inductive Query
  | disassemble (address : Word) (count : Nat)
  | disassembleRange (address size : Word)
  | analyzeCode (startAddress : Word) (maxInstructions : Nat)
  | analyzeCodeMulti (entryPoints : List Word) (maxInstructions : Nat)
  | coverageReport (entryPoints : List Word) (imageStart : Word) (imageLength : BitVec 32)
      (maxInstructions : Nat)
  | getXrefs (address : Word)
  | getCallGraph (address : Option Word) (limit : Nat)
  | getStack (limit : Nat)
  | getInstructionHistory (count : Nat)
  | getDebugState

namespace AgentApi

variable {δ : Type}

/-- The interface after a query. -/
def after (api : AgentApi δ) : Query → AgentApi δ
  | .disassemble address count => (api.disassemble address count).1
  | .disassembleRange address size => (api.disassembleRange address size).1
  | .analyzeCode startAddress maxInstructions => (api.analyzeCode startAddress maxInstructions).1
  | .analyzeCodeMulti entryPoints maxInstructions =>
    (api.analyzeCodeMulti entryPoints maxInstructions).1
  | .coverageReport entryPoints imageStart imageLength maxInstructions =>
    (api.coverageReport entryPoints imageStart imageLength maxInstructions).1
  | .getXrefs address => (api.getXrefs address).1
  | .getCallGraph address limit => (api.getCallGraph address limit).1
  | .getStack limit => (api.getStack limit).1
  | .getInstructionHistory count => (api.getInstructionHistory count).1
  | .getDebugState => api.getDebugState.1

/-- A call of `analyzeCode` that is refused. -/
def Refused (entryPoints : List Word) (maxInstructions : Nat) : Prop :=
  entryPoints = [] ∨ maxInstructions = 0 ∨
    entryPoints.length > AgentLimits.maxAnalysisEntryPoints

/-- The query has nothing to read: it is refused, the references are up to date, or the history
is empty. -/
def ReadsNothing (api : AgentApi δ) : Query → Prop
  | .disassemble _ count => count = 0
  | .disassembleRange address size => size = 0 ∨ address.toNat + size.toNat > 0x10000
  | .analyzeCode _ maxInstructions => maxInstructions = 0
  | .analyzeCodeMulti entryPoints maxInstructions => Refused entryPoints maxInstructions
  | .coverageReport entryPoints imageStart imageLength maxInstructions =>
    Refused entryPoints maxInstructions ∨
      maxInstructions > AgentLimits.maxCodeAnalysisInstructions ∨
      imageLength = 0 ∨ imageStart.setWidth 32 + imageLength > 0x10000
  | .getXrefs _ | .getCallGraph _ _ => api.table.xrefsDirty = false
  | .getStack limit => limit = 0
  | .getInstructionHistory count =>
    count = 0 ∨ api.backend.instrumentation.instrHistory.snapshot = []
  | .getDebugState => False

/-- What a query does to the backend: it reads bytes, none exactly if it has nothing to read. -/
def Reads (api : AgentApi δ) (query : Query) : Prop :=
  ∃ addresses, (api.after query).backend = api.backend.readAll addresses ∧
    (addresses = [] ↔ api.ReadsNothing query)

/-- A query that is refused returns the interface as it is. -/
theorem reads_of_refused {api : AgentApi δ} {query : Query} (same : api.after query = api)
    (nothing : api.ReadsNothing query) : api.Reads query :=
  ⟨[], by rw [same]; rfl, fun _ => nothing, fun _ => rfl⟩

theorem reads_of_reading {api : AgentApi δ} {query : Query} {addresses : List Word}
    (same : api.after query = api.reading addresses) (some : addresses ≠ [])
    (something : ¬ api.ReadsNothing query) : api.Reads query :=
  ⟨addresses, by rw [same]; rfl, fun none => absurd none some,
    fun nothing => absurd nothing something⟩

theorem disassemble_reads (api : AgentApi δ) (address : Word) (count : Nat) :
    api.Reads (.disassemble address count) := by
  by_cases none : count = 0
  · refine reads_of_refused ?_ none
    change (api.disassemble address count).1 = _
    unfold disassemble
    rw [if_pos none]
  · obtain ⟨capped, bound⟩ :
        ∃ capped, min count AgentLimits.maxDisassemblyCount = capped + 1 :=
      ⟨min count AgentLimits.maxDisassemblyCount - 1, by
        unfold AgentLimits.maxDisassemblyCount; omega⟩
    obtain ⟨di, rest, decoded⟩ := disassembleLoop_succ api.backend.readByte capped address
    refine reads_of_reading
      (by
        change (api.disassemble address count).1 = _
        unfold disassemble
        rw [if_neg none])
      ?_ none
    rw [bound, decoded]
    exact decodeReads_cons _ di rest

theorem disassembleRange_reads (api : AgentApi δ) (address size : Word) :
    api.Reads (.disassembleRange address size) := by
  have small : ¬ size.toNat > AgentLimits.maxMemoryReadRange :=
    Nat.not_lt.mpr (Nat.le_of_lt size.isLt)
  by_cases none : size = 0
  · refine reads_of_refused ?_ (.inl none)
    change (api.disassembleRange address size).1 = _
    unfold disassembleRange
    rw [if_pos (by rw [none]; rfl)]
  · have some : size.toNat ≠ 0 := fun zero => none (BitVec.eq_of_toNat_eq zero)
    by_cases wraps : address.toNat + size.toNat > 0x10000
    · refine reads_of_refused ?_ (.inr wraps)
      change (api.disassembleRange address size).1 = _
      unfold disassembleRange
      rw [if_neg some, if_neg small, if_pos wraps]
    · refine reads_of_reading
        (by
          change (api.disassembleRange address size).1 = _
          unfold disassembleRange
          rw [if_neg some, if_neg small, if_neg wraps]
          rfl)
        ?_ (not_or.mpr ⟨none, wraps⟩)
      obtain ⟨fuel, bound⟩ := Nat.exists_eq_succ_of_ne_zero some
      obtain ⟨di, rest, decoded⟩ := linearSweep_succ api.backend.readByte
        (Nat.lt_add_of_pos_right (Nat.pos_of_ne_zero some)) fuel
      rw [bound] at decoded ⊢
      rw [decoded]
      exact decodeReads_cons _ di rest

theorem capped_pos {maxInstructions : Nat} (some : maxInstructions ≠ 0) :
    0 < min maxInstructions AgentLimits.maxCodeAnalysisInstructions := by
  unfold AgentLimits.maxCodeAnalysisInstructions
  omega

theorem analyzeCode_reads (api : AgentApi δ) (startAddress : Word) (maxInstructions : Nat) :
    api.Reads (.analyzeCode startAddress maxInstructions) := by
  by_cases none : maxInstructions = 0
  · refine reads_of_refused ?_ none
    change (api.analyzeCode startAddress maxInstructions).1 = _
    unfold analyzeCode
    rw [if_pos none]
  · exact reads_of_reading
      (by
        change (api.analyzeCode startAddress maxInstructions).1 = _
        unfold analyzeCode
        rw [if_neg none])
      (analysisReads_ne_nil _ (List.cons_ne_nil startAddress []) (capped_pos none)) none

/-- The analysis itself, for the two calls that make it. -/
theorem analyzeCodeMulti_spec (api : AgentApi δ) (entryPoints : List Word)
    (maxInstructions : Nat) :
    Refused entryPoints maxInstructions ∧
        (api.analyzeCodeMulti entryPoints maxInstructions).1 = api ∨
      ¬ Refused entryPoints maxInstructions ∧ ∃ addresses, addresses ≠ [] ∧
        (api.analyzeCodeMulti entryPoints maxInstructions).1 = api.reading addresses := by
  unfold analyzeCodeMulti Refused
  by_cases entries : entryPoints = []
  · exact .inl ⟨.inl entries, by rw [if_pos entries]⟩
  · by_cases none : maxInstructions = 0
    · exact .inl ⟨.inr (.inl none), by rw [if_neg entries, if_pos none]⟩
    · by_cases many : entryPoints.length > AgentLimits.maxAnalysisEntryPoints
      · exact .inl ⟨.inr (.inr many), by rw [if_neg entries, if_neg none, if_pos many]⟩
      · refine .inr ⟨not_or.mpr ⟨entries, not_or.mpr ⟨none, many⟩⟩, _,
          analysisReads_ne_nil api.backend.readByte entries (capped_pos none), ?_⟩
        rw [if_neg entries, if_neg none, if_neg many]

theorem analyzeCodeMulti_reads (api : AgentApi δ) (entryPoints : List Word)
    (maxInstructions : Nat) : api.Reads (.analyzeCodeMulti entryPoints maxInstructions) := by
  obtain ⟨refused, same⟩ | ⟨accepted, addresses, some, same⟩ :=
    api.analyzeCodeMulti_spec entryPoints maxInstructions
  · exact reads_of_refused same refused
  · exact reads_of_reading same some accepted

theorem coverageReport_reads (api : AgentApi δ) (entryPoints : List Word) (imageStart : Word)
    (imageLength : BitVec 32) (maxInstructions : Nat) :
    api.Reads (.coverageReport entryPoints imageStart imageLength maxInstructions) := by
  have analysis := api.analyzeCodeMulti_spec entryPoints maxInstructions
  by_cases entries : entryPoints = []
  · refine reads_of_refused ?_ (.inl (.inl entries))
    change (api.coverageReport entryPoints imageStart imageLength maxInstructions).1 = _
    unfold coverageReport
    dsimp only
    rw [if_pos entries]
  · by_cases image : imageLength = 0 ∨ imageStart.setWidth 32 + imageLength > 0x10000
    · refine reads_of_refused ?_ (.inr (.inr image))
      change (api.coverageReport entryPoints imageStart imageLength maxInstructions).1 = _
      unfold coverageReport
      dsimp only
      rw [if_neg entries, if_pos image]
    · by_cases bounded :
          maxInstructions = 0 ∨ maxInstructions > AgentLimits.maxCodeAnalysisInstructions
      · refine reads_of_refused ?_ ?_
        · change (api.coverageReport entryPoints imageStart imageLength maxInstructions).1 = _
          unfold coverageReport
          dsimp only
          rw [if_neg entries, if_neg image, if_pos bounded]
        · exact bounded.elim (fun none => .inl (.inr (.inl none))) fun many => .inr (.inl many)
      · have called : api.after (.coverageReport entryPoints imageStart imageLength
            maxInstructions) = (api.analyzeCodeMulti entryPoints maxInstructions).1 := by
          change (api.coverageReport entryPoints imageStart imageLength maxInstructions).1 = _
          unfold coverageReport
          dsimp only
          rw [if_neg entries, if_neg image, if_neg bounded]
        obtain ⟨refused, same⟩ | ⟨accepted, addresses, some, same⟩ := analysis
        · exact reads_of_refused (called.trans same) (.inl refused)
        · refine reads_of_reading (called.trans same) some ?_
          rintro (refused | many | bad)
          · exact accepted refused
          · exact bounded (.inr many)
          · exact image bad

/-- The queries on references read to rebuild them. -/
theorem ensureXrefsBuilt_spec (api : AgentApi δ) :
    ∃ addresses, api.ensureXrefsBuilt.backend = api.backend.readAll addresses ∧
      (addresses = [] ↔ api.table.xrefsDirty = false) := by
  unfold ensureXrefsBuilt
  cases dirty : api.table.xrefsDirty with
  | false => exact ⟨[], rfl, fun _ => rfl, fun _ => rfl⟩
  | true =>
    have reads := api.table.scan_reads api.backend.symbols api.backend.readByte
    exact ⟨_, rfl, fun none => absurd none reads, nofun⟩

theorem getStack_reads (api : AgentApi δ) (limit : Nat) : api.Reads (.getStack limit) := by
  by_cases none : limit = 0
  · refine reads_of_refused ?_ none
    change (api.getStack limit).1 = _
    unfold getStack
    rw [if_pos none]
  · refine reads_of_reading
      (by
        change (api.getStack limit).1 = _
        unfold getStack
        rw [if_neg none])
      ?_ none
    obtain ⟨rest, slots⟩ := stackSlots_pos api.backend.target.sp (Nat.pos_of_ne_zero none)
    rw [slots, List.flatMap_cons]
    exact List.append_ne_nil_of_left_ne_nil (List.cons_ne_nil _ _) _

theorem getInstructionHistory_reads (api : AgentApi δ) (count : Nat) :
    api.Reads (.getInstructionHistory count) := by
  by_cases none : count = 0
  · refine reads_of_refused ?_ (.inl none)
    change (api.getInstructionHistory count).1 = _
    unfold getInstructionHistory
    rw [if_pos none]
  · generalize kept : api.backend.instrumentation.instrHistory.snapshot = all
    have same : api.after (.getInstructionHistory count) =
        api.reading ((all.drop (all.length - min count AgentLimits.maxHistoryEntries)).flatMap
          fun ev => disassembleReads api.backend.readByte ev.before.pc) := by
      change (api.getInstructionHistory count).1 = _
      unfold getInstructionHistory
      rw [if_neg none, ← kept]
    refine ⟨_, congrArg AgentApi.backend same, ?_⟩
    change _ ↔ count = 0 ∨ api.backend.instrumentation.instrHistory.snapshot = []
    rw [kept, or_iff_right none, List.flatMap_eq_nil_iff]
    constructor
    · intro unread
      by_contra some
      have length := List.length_pos_of_ne_nil some
      have last : all.drop (all.length - min count AgentLimits.maxHistoryEntries) ≠ [] := by
        rw [ne_eq, List.drop_eq_nil_iff]
        unfold AgentLimits.maxHistoryEntries
        omega
      obtain ⟨ev, rest, list⟩ := List.exists_cons_of_ne_nil last
      exact disassembleReads_ne_nil _ _ (unread ev (by rw [list]; exact List.mem_cons_self))
    · rintro rfl ev member
      rw [List.drop_nil] at member
      exact absurd member List.not_mem_nil

/-- Every query reads bytes and does nothing else to the backend. -/
theorem query_reads (api : AgentApi δ) (query : Query) : api.Reads query := by
  cases query with
  | disassemble address count => exact api.disassemble_reads address count
  | disassembleRange address size => exact api.disassembleRange_reads address size
  | analyzeCode startAddress maxInstructions =>
    exact api.analyzeCode_reads startAddress maxInstructions
  | analyzeCodeMulti entryPoints maxInstructions =>
    exact api.analyzeCodeMulti_reads entryPoints maxInstructions
  | coverageReport entryPoints imageStart imageLength maxInstructions =>
    exact api.coverageReport_reads entryPoints imageStart imageLength maxInstructions
  | getXrefs address => exact api.ensureXrefsBuilt_spec
  | getCallGraph address limit => exact api.ensureXrefsBuilt_spec
  | getStack limit => exact api.getStack_reads limit
  | getInstructionHistory count => exact api.getInstructionHistory_reads count
  | getDebugState =>
    exact reads_of_reading rfl (disassembleReads_ne_nil _ _) id

/-- A query leaves the recorded activity alone exactly when nothing is recorded or it has nothing
to read. -/
theorem query_undisturbed_iff (api : AgentApi δ) (query : Query) :
    (api.after query).backend.instrumentation.SameActivity api.backend.instrumentation ↔
      api.backend.instrumentation.instrumentationEnabled = false ∨ api.ReadsNothing query := by
  obtain ⟨addresses, reads, nothing⟩ := api.query_reads query
  rw [reads, DebugBackend.readAll_sameActivity_iff, nothing]

/-- A debugger that has just started. -/
def started : AgentApi Unit where
  backend := DebugBackend.init () [] fun _ => []
  table := .init

/-- Looking at the last address while the program counter is zero counts an execution there. -/
theorem disassemble_counts_execution :
    (started.after (.disassemble 0xffff 1)).backend.instrumentation.executeCount 0xffff = 1 ∧
      ¬ (started.after (.disassemble 0xffff 1)).backend.instrumentation.SameActivity
        started.backend.instrumentation := by
  have counted :
      (started.after (.disassemble 0xffff 1)).backend.instrumentation.executeCount 0xffff = 1 := by
    decide
  refine ⟨counted, fun same => ?_⟩
  rw [same.executeCount] at counted
  exact absurd counted (by decide)

end AgentApi

end VectorDebugger

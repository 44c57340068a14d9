import VectorDebugger.Debugger.XrefExact
import VectorDebugger.Debugger.XrefSessions

/-!
# Callers and callees

The callees of a function are read from its instructions, the callers from the references. A
restart has a callee, but its source is left out of the callers, so the two mirror each other where
no restart is recorded.
-/

namespace VectorDebugger

/-! ### Callees -/

section Callees

variable {readByte : DisasmReadFn}

/-- Every instruction of a function is what its address holds. -/
theorem disassembleFunctionLoop_spec (symbols : SymbolDatabase) (address : Word) (fuel : Nat) :
    ∀ (pc : Word) (bytesDone : Nat),
      ∀ di ∈ disassembleFunctionLoop symbols readByte address fuel pc bytesDone,
        ∃ addr, di = disassemble addr readByte := by
  induction fuel with
  | zero =>
    intro pc bytesDone di listed
    exact absurd listed List.not_mem_nil
  | succ fuel inductionHypothesis =>
    intro pc bytesDone di listed
    unfold disassembleFunctionLoop at listed
    split at listed
    · split at listed
      · exact absurd listed List.not_mem_nil
      · dsimp only at listed
        split at listed
        · exact ⟨pc, List.mem_singleton.mp listed⟩
        · rcases List.mem_cons.mp listed with rfl | later
          · exact ⟨pc, rfl⟩
          · exact inductionHypothesis _ _ di later
    · exact absurd listed List.not_mem_nil

/-- An instruction calls where its reference leads. -/
theorem mem_callees {addr target : Word} :
    target ∈ ((disassemble addr readByte).functionInstruction).callees ↔
      isCallOrRst (readByte addr) = true ∧ XrefScan.targetAt readByte addr = target := by
  let operand := Disassembler.operandBytes addr (getLength (readByte addr)) readByte
  show target ∈ (if isCallOpcode (readByte addr) && getLength (readByte addr) == 3 then
      [wordOf operand.1 operand.2] else []) ++
    (if isRstOpcode (readByte addr) then [XrefScan.restartTarget (readByte addr)] else []) ↔ _
  unfold isCallOrRst
  by_cases call : isCallOpcode (readByte addr) = true
  · obtain ⟨length, plain, -⟩ := isCallOpcode_spec call
    have word : wordOf operand.1 operand.2 = XrefScan.operandWord readByte addr := by
      unfold operand Disassembler.operandBytes XrefScan.operandWord
      rw [length]
      rfl
    rw [XrefScan.targetAt_call call, word]
    simp [call, plain, length, eq_comm]
  · by_cases restart : isRstOpcode (readByte addr) = true
    · rw [XrefScan.targetAt_rst restart]
      simp [call, restart, eq_comm]
    · simp [call, restart]

end Callees

namespace AgentApi

variable {δ : Type}

/-- The callers of a function are the sources of references to it that call or restart, and they
have it as a callee: an instruction of any function that contributes it to the callees and is a
source is one of them. -/
def Mirrors (api : AgentApi δ) (address : Word) : Prop :=
  ∀ context, (api.getFunctionContext address).2 = .ok context →
    (∀ source, source ∈ context.callers ↔
      (∃ xref ∈ api.ensureXrefsBuilt.table.xrefsTo address, xref.source = source) ∧
        isCallOrRst (api.backend.readByte source) = true) ∧
    ∀ caller callerContext, (api.getFunctionContext caller).2 = .ok callerContext →
      ∀ instr ∈ callerContext.instructions, address ∈ instr.callees →
        (∃ xref ∈ api.ensureXrefsBuilt.table.xrefs, xref.source = instr.address) →
          instr.address ∈ context.callers

/-- No restart to the address is recorded. -/
def NoRestartTo (api : AgentApi δ) (address : Word) : Prop :=
  ∀ source, api.table.Recorded api.backend.symbols api.backend.readByte source →
    isRstOpcode (api.backend.readByte source) = true →
      XrefScan.restartTarget (api.backend.readByte source) ≠ address

variable {api : AgentApi δ}

/-- The references that a query uses, after a scan that is fresh. -/
theorem mem_built (fresh : api.Fresh) (ordered : RegionsOrdered api.table.regions)
    (xref : XrefEntry) : xref ∈ api.ensureXrefsBuilt.table.xrefs ↔
      api.table.Recorded api.backend.symbols api.backend.readByte xref.source ∧
        xref.target = XrefScan.targetAt api.backend.readByte xref.source := by
  rw [fresh.current.references]
  exact XrefTable.mem_rebuildXrefs ordered xref

/-- The references to an address. -/
theorem source_xrefsTo (fresh : api.Fresh) (ordered : RegionsOrdered api.table.regions)
    (address source : Word) :
    (∃ xref ∈ api.ensureXrefsBuilt.table.xrefsTo address, xref.source = source) ↔
      api.table.Recorded api.backend.symbols api.backend.readByte source ∧
        XrefScan.targetAt api.backend.readByte source = address := by
  unfold XrefTable.xrefsTo
  constructor
  · rintro ⟨xref, listed, rfl⟩
    obtain ⟨member, leads⟩ := List.mem_filter.mp listed
    obtain ⟨recorded, target⟩ := (mem_built fresh ordered xref).mp member
    exact ⟨recorded, target.symm.trans (of_decide_eq_true leads)⟩
  · rintro ⟨recorded, leads⟩
    refine ⟨⟨source, address⟩, List.mem_filter.mpr ⟨?_, decide_eq_true rfl⟩, rfl⟩
    exact (mem_built fresh ordered _).mpr ⟨recorded, leads.symm⟩

/-- The callers are the references from a call. -/
theorem mem_callers (fresh : api.Fresh) (ordered : RegionsOrdered api.table.regions)
    {address : Word} {context : FunctionContext}
    (answered : (api.getFunctionContext address).2 = .ok context) (source : Word) :
    source ∈ context.callers ↔
      (api.table.Recorded api.backend.symbols api.backend.readByte source ∧
        XrefScan.targetAt api.backend.readByte source = address) ∧
          isCallOpcode (api.backend.readByte source) = true := by
  rw [← source_xrefsTo fresh ordered, ← Except.ok.inj answered]
  unfold functionContext
  dsimp only
  rw [List.mem_filter, List.mem_map, api.ensureXrefsBuilt_backend.1]

/-- The instructions of a function are what memory holds. -/
theorem mem_instructions {address : Word} {context : FunctionContext}
    (answered : (api.getFunctionContext address).2 = .ok context) {instr : FunctionInstruction}
    (listed : instr ∈ context.instructions) :
    instr =
      (VectorDebugger.disassemble instr.address api.backend.readByte).functionInstruction := by
  rw [← Except.ok.inj answered] at listed
  unfold functionContext at listed
  dsimp only at listed
  obtain ⟨di, member, rfl⟩ := List.mem_map.mp listed
  obtain ⟨addr, rfl⟩ := disassembleFunctionLoop_spec _ _ _ _ _ di member
  rw [api.ensureXrefsBuilt_backend.1]
  rfl

/-- Callers and callees mirror each other exactly when no restart is recorded. -/
theorem mirrors_iff_noRestartTo (fresh : api.Fresh)
    (ordered : RegionsOrdered api.table.regions) (address : Word) :
    api.Mirrors address ↔ api.NoRestartTo address := by
  constructor
  · intro mirrors source recorded restart leads
    have leads' := (XrefScan.targetAt_rst restart).trans leads
    have reference := (source_xrefsTo fresh ordered address source).mpr ⟨recorded, leads'⟩
    have calls : isCallOrRst (api.backend.readByte source) = true := by
      unfold isCallOrRst
      rw [restart, Bool.or_true]
    have listed := ((mirrors _ rfl).1 source).mpr ⟨reference, calls⟩
    have call := ((mem_callers fresh ordered rfl source).mp listed).2
    rw [(isCallOpcode_spec call).2.1] at restart
    exact Bool.false_ne_true restart
  · intro none' context answered
    -- What leads to the address by a call or restart does so by a call.
    have calls : ∀ {source : Word},
        api.table.Recorded api.backend.symbols api.backend.readByte source →
          XrefScan.targetAt api.backend.readByte source = address →
            isCallOrRst (api.backend.readByte source) = true →
              isCallOpcode (api.backend.readByte source) = true := by
      intro source recorded leads either
      rcases Bool.or_eq_true_iff.mp either with call | restart
      · exact call
      · exact absurd ((XrefScan.targetAt_rst restart).symm.trans leads)
          (none' source recorded restart)
    refine ⟨fun source => ?_, ?_⟩
    · rw [mem_callers fresh ordered answered, source_xrefsTo fresh ordered]
      constructor
      · rintro ⟨reference, call⟩
        refine ⟨reference, ?_⟩
        unfold isCallOrRst
        rw [call, Bool.true_or]
      · rintro ⟨reference, either⟩
        exact ⟨reference, calls reference.1 reference.2 either⟩
    · intro caller callerContext answered' instr listed callee known
      rw [mem_instructions answered' listed] at callee
      obtain ⟨either, leads⟩ := mem_callees.mp callee
      obtain ⟨xref, member, same⟩ := known
      have recorded := ((mem_built fresh ordered xref).mp member).1
      rw [same] at recorded
      rw [mem_callers fresh ordered answered]
      exact ⟨⟨recorded, leads⟩, calls recorded leads either⟩

theorem mirrors_iff_noRestartTo_started : started.Mirrors 0 ↔ started.NoRestartTo 0 :=
  mirrors_iff_noRestartTo (.of_dirty rfl) XrefTable.init_ordered 0

/-- A debugger that has just started, with a restart at the start of memory. -/
def restarting : AgentApi Unit := { started with backend := .init () [0xc7] fun _ => [] }

/-- The restart is a reference to address zero, but no caller. -/
theorem restart_no_caller : ¬ ∀ (api : AgentApi Unit), api.Fresh →
    RegionsOrdered api.table.regions → ∀ address, api.Mirrors address := by
  intro mirrors
  have mirrored := mirrors restarting (.of_dirty rfl) XrefTable.init_ordered 0 _ rfl
  have recorded : XrefTable.init.Recorded .empty restarting.backend.readByte 0 :=
    Or.inl ((XrefTable.init_firstSource _ _).mpr
      ⟨Relation.ReflTransGen.refl, by decide, by decide⟩)
  have fresh : restarting.Fresh := .of_dirty rfl
  have reference := (source_xrefsTo fresh XrefTable.init_ordered 0 0).mpr ⟨recorded, by decide⟩
  have listed := (mirrored.1 0).mpr ⟨reference, by decide⟩
  have call := ((mem_callers fresh XrefTable.init_ordered rfl 0).mp listed).2
  exact absurd call (by decide)

end AgentApi

end VectorDebugger

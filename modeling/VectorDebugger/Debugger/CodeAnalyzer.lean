import Mathlib.Data.List.Sort
import Mathlib.Data.BitVec
import Mathlib.Data.Fintype.Card
import VectorDebugger.Debugger.Disassembler

/-!
# Code analyzer

`analyzeCodeMulti` follows control flow breadth first from a list of entry points. It decodes each
address once, refuses to decode inside an instruction it has decoded, and forms the ranges that
the instructions cover.
-/

namespace VectorDebugger

/-- `AnalyzedInstruction`. -/
structure AnalyzedInstruction where
  /-- `address`. -/
  address : Word
  /-- `opcode`. -/
  opcode : Byte
  /-- `size`. -/
  size : Nat
  /-- `mnemonic`. -/
  mnemonic : Text
  /-- `operands`. -/
  operands : Text
  /-- `text`. -/
  text : Text
  /-- `hasTarget`. -/
  hasTarget : Bool
  /-- `target`. -/
  target : Word
deriving DecidableEq, Repr

/-- The types of `ControlFlowRef`. -/
inductive RefType
  | jmp | jcc | call | callcc | rst
deriving DecidableEq, Repr

/-- `ControlFlowRef::type`. -/
def RefType.name : RefType → Text
  | .jmp => ascii "JMP"
  | .jcc => ascii "JCC"
  | .call => ascii "CALL"
  | .callcc => ascii "CALLCC"
  | .rst => ascii "RST"

/-- `ControlFlowRef`. -/
structure ControlFlowRef where
  /-- `from`. -/
  source : Word
  /-- `to`. -/
  target : Word
  /-- `type`. -/
  kind : RefType
deriving DecidableEq, Repr

/-- `CodeRange`. -/
structure CodeRange where
  /-- `start`. -/
  start : Word
  /-- `end`, inclusive. -/
  last : Word
deriving DecidableEq, Repr

/-- `AnalysisConflict`. -/
structure AnalysisConflict where
  /-- `address`. -/
  address : Word
  /-- `description`. -/
  description : Text
deriving DecidableEq, Repr

/-- `CodeAnalysisResult`. -/
structure CodeAnalysisResult where
  /-- `entryPoint`. -/
  entryPoint : Word
  /-- `entryPoints`. -/
  entryPoints : List Word
  /-- `instructions`. -/
  instructions : List AnalyzedInstruction
  /-- `references`. -/
  references : List ControlFlowRef
  /-- `ranges`. -/
  ranges : List CodeRange
  /-- `conflicts`. -/
  conflicts : List AnalysisConflict
  /-- `instructionCount`. -/
  instructionCount : Nat
  /-- `codeBytes`. -/
  codeBytes : Nat
  /-- `truncated`. -/
  truncated : Bool
deriving DecidableEq, Repr

/-- `ControlFlowType`. -/
inductive ControlFlowType
  | sequential | unconditionalJmp | conditionalJmp | unconditionalCall | conditionalCall
  | unconditionalRet | conditionalRet | restart | halt | indirectJump
deriving DecidableEq, Repr

/-- `classifyControlFlow`. -/
def classifyControlFlow (opcode : Byte) : ControlFlowType :=
  if opcode = 0xc3 then .unconditionalJmp
  else if opcode = 0xcd then .unconditionalCall
  else if opcode = 0xc9 then .unconditionalRet
  else if opcode = 0xe9 then .indirectJump
  else if opcode = 0x76 then .halt
  else if opcode &&& 0xc0 ≠ 0xc0 then .sequential
  else if opcode &&& 0x07 = 0x00 then .conditionalRet
  else if opcode &&& 0x07 = 0x02 then .conditionalJmp
  else if opcode &&& 0x07 = 0x04 then .conditionalCall
  else if opcode &&& 0x07 = 0x07 then .restart
  else .sequential

/-- The type of reference that an instruction makes to its target. -/
def ControlFlowType.refType : ControlFlowType → Option RefType
  | .unconditionalJmp => some .jmp
  | .conditionalJmp => some .jcc
  | .unconditionalCall => some .call
  | .conditionalCall => some .callcc
  | .restart => some .rst
  | _ => none

namespace DisassembledInstruction

/-- `nextAddr`. -/
def nextAddr (di : DisassembledInstruction) : Word := di.address + BitVec.ofNat 16 di.length

/-- The addresses to which the analyzer follows an instruction. -/
def successors (di : DisassembledInstruction) : List Word :=
  match classifyControlFlow di.opcode with
  | .unconditionalJmp => [di.target]
  | .conditionalJmp | .unconditionalCall | .conditionalCall | .restart => [di.target, di.nextAddr]
  | .unconditionalRet | .halt | .indirectJump => []
  | .conditionalRet | .sequential => [di.nextAddr]

/-- The `AnalyzedInstruction` kept of a decoded instruction. -/
def analyzed (di : DisassembledInstruction) : AnalyzedInstruction where
  address := di.address
  opcode := di.opcode
  size := di.length
  mnemonic := di.mnemonic
  operands := di.operands
  text := di.text
  hasTarget := di.hasTarget
  target := di.target

/-- The `ControlFlowRef` of a decoded instruction. -/
def reference (di : DisassembledInstruction) : Option ControlFlowRef :=
  (classifyControlFlow di.opcode).refType.map fun kind =>
    { source := di.address, target := di.target, kind }

end DisassembledInstruction

/-- The local state of `analyzeCodeMulti`. -/
structure CodeAnalysis where
  /-- `result.instructions`. -/
  instructions : List AnalyzedInstruction
  /-- `result.references`. -/
  references : List ControlFlowRef
  /-- `result.conflicts`. -/
  conflicts : List AnalysisConflict
  /-- `instrEndMap` — start and length less one; its keys are `visited`. The order in which the
  source goes through it decides no more than which instruction a conflict text names. -/
  instrEndMap : List (Word × Nat)
  /-- `workQueue`. -/
  workQueue : List Word

namespace CodeAnalysis

/-- `visited.count`. -/
def visited (analysis : CodeAnalysis) (addr : Word) : Bool :=
  analysis.instrEndMap.any (·.1 = addr)

/-- The address falls inside an instruction. `instrLast` is a 16-bit sum. -/
def inside (addr : Word) (entry : Word × Nat) : Bool :=
  entry.1 < addr && addr ≤ entry.1 + BitVec.ofNat 16 entry.2

/-- The start of a decoded instruction into which an address falls. -/
def conflictAt (analysis : CodeAnalysis) (addr : Word) : Option Word :=
  (analysis.instrEndMap.find? (inside addr)).map (·.1)

/-- The description of a conflict. -/
def conflictText (start : Word) : Text :=
  ascii ("instruction boundary conflict: address falls inside existing instruction at " ++
    toString start.toNat)

/-- Record a decoded instruction and queue the successors that are not decoded yet. -/
def record (analysis : CodeAnalysis) (di : DisassembledInstruction) : CodeAnalysis :=
  let marked := { analysis with
    instructions := analysis.instructions ++ [di.analyzed]
    references := analysis.references ++ di.reference.toList
    instrEndMap := analysis.instrEndMap ++ [(di.address, di.length - 1)] }
  { marked with
    workQueue := marked.workQueue ++ di.successors.filter (!marked.visited ·) }

/-- The body of the loop, for an address taken from the queue. -/
def visit (analysis : CodeAnalysis) (readByte : DisasmReadFn) (addr : Word) : CodeAnalysis :=
  if analysis.visited addr then analysis
  else match analysis.conflictAt addr with
    | some start =>
      { analysis with
        conflicts := analysis.conflicts ++
          [{ address := addr, description := conflictText start }] }
    | none => analysis.record (disassemble addr readByte)

/-- The loop of `analyzeCodeMulti`, with a bound on its passes. -/
def loop (readByte : DisasmReadFn) (maxInstructions : Nat) : Nat → CodeAnalysis → CodeAnalysis
  | 0, analysis => analysis
  | fuel + 1, analysis =>
    match analysis.workQueue with
    | [] => analysis
    | addr :: rest =>
      if analysis.instructions.length < maxInstructions then
        loop readByte maxInstructions fuel
          (({ analysis with workQueue := rest } : CodeAnalysis).visit readByte addr)
      else analysis

/-- The loop has ended by its own condition. -/
def Done (analysis : CodeAnalysis) (maxInstructions : Nat) : Prop :=
  analysis.workQueue = [] ∨ maxInstructions ≤ analysis.instructions.length

/-- Before the loop. -/
def start (entryPoints : List Word) : CodeAnalysis where
  instructions := []
  references := []
  conflicts := []
  instrEndMap := []
  workQueue := entryPoints

/-- Enough passes for any analysis: every entry point, and two successors of every address. -/
def passBound (entryPoints : List Word) : Nat := entryPoints.length + 2 * 65536

end CodeAnalysis

/-- The ranges covered by instructions in address order, from a range that is still open. -/
def codeRangesFrom (open' : CodeRange) : List AnalyzedInstruction → List CodeRange
  | [] => [open']
  | inst :: rest =>
    let curEnd := inst.address + BitVec.ofNat 16 inst.size - 1
    if inst.address.toNat ≤ open'.last.toNat + 1 then
      codeRangesFrom (if curEnd > open'.last then { open' with last := curEnd } else open') rest
    else open' :: codeRangesFrom { start := inst.address, last := curEnd } rest

/-- `result.ranges`. -/
def codeRanges : List AnalyzedInstruction → List CodeRange
  | [] => []
  | inst :: rest =>
    codeRangesFrom { start := inst.address, last := inst.address + BitVec.ofNat 16 inst.size - 1 }
      rest

/-- The first occurrences of a list, in order. -/
def firstOccurrences (entryPoints : List Word) : List Word :=
  entryPoints.foldl (fun kept ep => if kept.contains ep then kept else kept ++ [ep]) []

/-- `analyzeCodeMulti`. -/
def analyzeCodeMulti (entryPoints : List Word) (readByte : DisasmReadFn) (maxInstructions : Nat) :
    CodeAnalysisResult :=
  let entries := firstOccurrences entryPoints
  let done := (CodeAnalysis.start entries).loop readByte maxInstructions
    (CodeAnalysis.passBound entries)
  let instructions := done.instructions.insertionSort (fun a b => a.address ≤ b.address)
  { entryPoint := entries.headD 0
    entryPoints := entries
    instructions
    references := done.references
    ranges := codeRanges instructions
    conflicts := done.conflicts
    instructionCount := done.instructions.length
    codeBytes := (instructions.map (·.size)).sum
    truncated := !done.workQueue.isEmpty && decide (maxInstructions ≤ done.instructions.length) }

/-- `analyzeCode`. -/
def analyzeCode (startAddress : Word) (readByte : DisasmReadFn) (maxInstructions : Nat) :
    CodeAnalysisResult :=
  analyzeCodeMulti [startAddress] readByte maxInstructions

namespace CodeAnalysis

/-- What the loop keeps: no address is decoded twice. -/
def DecodedOnce (analysis : CodeAnalysis) : Prop := (analysis.instrEndMap.map (·.1)).Nodup

/-- Passes that may still be needed: two successors for every address not decoded yet. -/
def left (analysis : CodeAnalysis) : Nat :=
  analysis.workQueue.length + 2 * (65536 - analysis.instrEndMap.length)

theorem DecodedOnce.length_le {analysis : CodeAnalysis} (once : analysis.DecodedOnce) :
    analysis.instrEndMap.length ≤ 65536 := by
  have distinct : ((analysis.instrEndMap.map (·.1)).map BitVec.toFin).Nodup :=
    once.map BitVec.toFin_injective
  have below := distinct.length_le_card
  rw [List.length_map, List.length_map, Fintype.card_fin] at below
  exact below

theorem successors_length (di : DisassembledInstruction) : di.successors.length ≤ 2 := by
  unfold DisassembledInstruction.successors
  split <;> simp

/-- A visit changes only the conflicts, or decodes an address for the first time. -/
theorem visit_spec (analysis : CodeAnalysis) (readByte : DisasmReadFn) (addr : Word) :
    (∃ conflicts, analysis.visit readByte addr = { analysis with conflicts }) ∨
      analysis.visited addr = false ∧ analysis.conflictAt addr = none ∧
        analysis.visit readByte addr = analysis.record (disassemble addr readByte) := by
  unfold visit
  cases visited : analysis.visited addr with
  | true => exact Or.inl ⟨analysis.conflicts, rfl⟩
  | false =>
    cases conflict : analysis.conflictAt addr with
    | some start => exact Or.inl ⟨_, rfl⟩
    | none => exact Or.inr ⟨rfl, rfl, rfl⟩

theorem not_mem_of_visited {analysis : CodeAnalysis} {addr : Word}
    (fresh : analysis.visited addr = false) : addr ∉ analysis.instrEndMap.map (·.1) := by
  intro decoded
  obtain ⟨entry, found, rfl⟩ := List.mem_map.mp decoded
  have seen : analysis.visited entry.1 = true :=
    List.any_eq_true.mpr ⟨entry, found, decide_eq_true rfl⟩
  exact nomatch fresh.symm.trans seen

/-- A pass keeps addresses decoded once and brings the end of the loop nearer. -/
theorem visit_left (analysis : CodeAnalysis) (readByte : DisasmReadFn) {addr : Word}
    {rest : List Word} (queue : analysis.workQueue = addr :: rest) (once : analysis.DecodedOnce) :
    (({ analysis with workQueue := rest } : CodeAnalysis).visit readByte addr).DecodedOnce ∧
      (({ analysis with workQueue := rest } : CodeAnalysis).visit readByte addr).left <
        analysis.left := by
  have popped : analysis.workQueue.length = rest.length + 1 := by rw [queue, List.length_cons]
  obtain ⟨conflicts, same⟩ | ⟨fresh, -, recorded⟩ :=
    ({ analysis with workQueue := rest } : CodeAnalysis).visit_spec readByte addr
  · rw [same]
    refine ⟨once, ?_⟩
    unfold left
    dsimp only
    omega
  · rw [recorded]
    have again : (({ analysis with workQueue := rest } : CodeAnalysis).record
        (disassemble addr readByte)).DecodedOnce := by
      have entry : (disassemble addr readByte).address = addr := rfl
      unfold DecodedOnce record
      rw [List.map_append, List.nodup_append]
      refine ⟨once, List.nodup_singleton _, fun known seen other new same => ?_⟩
      have newEq : other = addr := List.mem_singleton.mp new
      rw [same, newEq] at seen
      exact not_mem_of_visited fresh seen
    refine ⟨again, ?_⟩
    have bound := again.length_le
    have grown : (({ analysis with workQueue := rest } : CodeAnalysis).record
        (disassemble addr readByte)).instrEndMap.length = analysis.instrEndMap.length + 1 := by
      unfold record
      rw [List.length_append, List.length_singleton]
    have pushed : (({ analysis with workQueue := rest } : CodeAnalysis).record
        (disassemble addr readByte)).workQueue.length ≤ rest.length + 2 := by
      unfold record
      rw [List.length_append]
      exact Nat.add_le_add_left
        ((List.length_filter_le _ _).trans (successors_length _)) _
    unfold left
    omega

/-- With passes enough for what is left, the loop ends by its own condition. -/
theorem loop_done (readByte : DisasmReadFn) (maxInstructions fuel : Nat) :
    ∀ analysis : CodeAnalysis, analysis.DecodedOnce → analysis.left ≤ fuel →
      (analysis.loop readByte maxInstructions fuel).Done maxInstructions := by
  induction fuel with
  | zero =>
    intro analysis once bound
    refine Or.inl (List.eq_nil_of_length_eq_zero ?_)
    unfold left at bound
    unfold loop
    omega
  | succ fuel inductionHypothesis =>
    intro analysis once bound
    unfold loop
    cases queue : analysis.workQueue with
    | nil => exact Or.inl queue
    | cons addr rest =>
      dsimp only
      by_cases room : analysis.instructions.length < maxInstructions
      · rw [if_pos room]
        obtain ⟨again, nearer⟩ := analysis.visit_left readByte queue once
        exact inductionHypothesis _ again (by omega)
      · rw [if_neg room]
        exact Or.inr (by omega)

/-- `analyzeCodeMulti` always gives its loop enough passes. -/
theorem analyzeCodeMulti_done (entryPoints : List Word) (readByte : DisasmReadFn)
    (maxInstructions : Nat) :
    ((start entryPoints).loop readByte maxInstructions (passBound entryPoints)).Done
      maxInstructions := by
  refine loop_done readByte maxInstructions _ (start entryPoints) List.nodup_nil ?_
  exact Nat.le_of_eq rfl

end CodeAnalysis

end VectorDebugger

import VectorDebugger.Debugger.MemorySnapshots
import VectorDebugger.Debugger.Queries
import VectorDebugger.Machine.Banking

/-!
# Range checks

Six functions of the interface take a start and a length and compare the sum with the size of
memory. The sum has 32 bits. `disassembleImage` and `getVramBytes` also limit the length, so their
sum is exact where it matters. The other four accept a length whose sum wraps to something small.
-/

namespace VectorDebugger

namespace AgentLimits

/-- `MAX_DISASSEMBLE_IMAGE_LENGTH`. -/
def maxDisassembleImageLength : Nat := 65536

/-- `MAX_DISASSEMBLE_IMAGE_INSTRUCTIONS`. -/
def maxDisassembleImageInstructions : Nat := 40000

/-- `MAX_VRAM_READ_RANGE`. -/
def maxVramReadRange : Nat := 32768

end AgentLimits

namespace AgentApi

variable {δ : Type}

/-- `endAddr` of `readMemory` and `writeMemory`: a sum of 64 bits, kept in 32. -/
def endAddr (address : Word) (size : BitVec 64) : BitVec 32 :=
  (address.setWidth 64 + size).setWidth 32

/-- `AgentApi::readMemory`. -/
def readMemory (api : AgentApi δ) (address : Word) (size : BitVec 64) :
    AgentApiResult (List Byte) :=
  if endAddr address size > 0x10000 then
    .fail .invalidRange "address + size exceeds 64K address space"
  else
    .ok ((List.range size.toNat).map fun i =>
      api.backend.target.readMemoryRaw (address + BitVec.ofNat 16 i))

section Devices

variable [Chips δ]

/-- `DebugBackend::writeMemory`, whose command is executed at once. -/
def backendWrite (api : AgentApi δ) (address : Word) (data : List Byte) : AgentApi δ × Bool :=
  if data = [] then (api, false)
  else
    let written := api.backend.executeCommand (.memoryWrite address data)
    ({ api with backend := written.1 }, written.2.result.success)

/-- `AgentApi::writeMemory`. -/
def writeMemory (api : AgentApi δ) (address : Word) (data : List Byte) :
    AgentApi δ × AgentApiResult Unit :=
  if endAddr address (BitVec.ofNat 64 data.length) > 0x10000 then
    (api, .fail .invalidRange "address + size exceeds 64K address space")
  else
    let written := api.backendWrite address data
    (written.1,
      if written.2 then .ok () else .fail .operationFailed "Memory write failed")

end Devices

/-- `AgentApi::disassembleImage`. -/
def disassembleImage (api : AgentApi δ) (address : Word) (length : BitVec 32) :
    AgentApi δ × AgentApiResult DisassembleRangeResult :=
  if length = 0 then (api, .fail .invalidArgument "length must be > 0")
  else if length.toNat > AgentLimits.maxDisassembleImageLength then
    (api, .fail .invalidRange "length exceeds maximum (65536)")
  else if address.setWidth 32 + length > 0x10000 then
    (api, .fail .invalidRange "address + length exceeds 64K address space")
  else
    let result := api.linearDisassemble address length.toNat
    (result.1,
      if result.2.instructions.length > AgentLimits.maxDisassembleImageInstructions then
        .fail .limitExceeded ("instruction count " ++ toString result.2.instructions.length ++
          " exceeds limit (40000); use a smaller range")
      else .ok result.2)

/-- `AgentApi::getVramBytes`. -/
def getVramBytes (api : AgentApi δ) (address : Word) (length : BitVec 32) :
    AgentApiResult (List Byte) :=
  if length = 0 then .fail .invalidArgument "length must be > 0"
  else if address < 0x8000 then .fail .invalidAddress "VRAM addresses start at 0x8000"
  else if address.setWidth 32 + length > 0x10000 then
    .fail .invalidRange "address + length exceeds VRAM region (0x8000..0xFFFF)"
  else if length.toNat > AgentLimits.maxVramReadRange then
    .fail .invalidRange "length exceeds maximum (32768)"
  else api.readMemory address (length.setWidth 64)

end AgentApi

/-! ### Requests -/

/-- A call with a start and a length. -/
inductive RangeRequest
  /-- `AgentApi::readMemory`. -/
  | readMemory (address : Word) (size : BitVec 64)
  /-- `AgentApi::writeMemory`. -/
  | writeMemory (address : Word) (data : List Byte)
  /-- `AgentApi::coverageReport`. -/
  | coverageReport (entryPoints : List Word) (imageStart : Word) (imageLength : BitVec 32)
    (maxInstructions : Nat)
  /-- `AgentApi::diffMemorySnapshots`. -/
  | diffMemorySnapshots (idA idB : BitVec 32) (start : Word) (length : BitVec 32)
  /-- `AgentApi::disassembleImage`. -/
  | disassembleImage (address : Word) (length : BitVec 32)
  /-- `AgentApi::getVramBytes`. -/
  | getVramBytes (address : Word) (length : BitVec 32)

/-- The checks of a call answer with one of these codes; a call that passes them may still fail
with another. -/
def ErrorCode.refuses : ErrorCode → Bool
  | .invalidArgument | .invalidAddress | .invalidRange | .notFound => true
  | _ => false

/-- A call passes its checks. -/
def AgentApiResult.Accepted {α : Type} : AgentApiResult α → Prop
  | .ok _ => True
  | .error (code, _) => code.refuses = false

namespace RangeRequest

/-- The end of the range, as an integer. -/
def rangeEnd : RangeRequest → Nat
  | .readMemory address size => address.toNat + size.toNat
  | .writeMemory address data => address.toNat + data.length
  | .coverageReport _ imageStart imageLength _ => imageStart.toNat + imageLength.toNat
  | .diffMemorySnapshots _ _ start length => start.toNat + length.toNat
  | .disassembleImage address length => address.toNat + length.toNat
  | .getVramBytes address length => address.toNat + length.toNat

variable {δ : Type} [Chips δ] (api : AgentApi δ) (store : MemorySnapshots)

/-- The call passes its checks. Where it runs into undefined behaviour it has. -/
def Accepted : RangeRequest → Prop
  | .readMemory address size => (api.readMemory address size).Accepted
  | .writeMemory address data => (api.writeMemory address data).2.Accepted
  | .coverageReport entryPoints imageStart imageLength maxInstructions =>
    (api.coverageReport entryPoints imageStart imageLength maxInstructions).2.Accepted
  | .diffMemorySnapshots idA idB start length =>
    ∀ answer, AgentApi.diffMemorySnapshots store idA idB start length = some answer →
      answer.Accepted
  | .disassembleImage address length => (api.disassembleImage address length).2.Accepted
  | .getVramBytes address length => (api.getVramBytes address length).Accepted

/-- The indices that the call uses are in bounds: the cells of memory, of which any address selects
one; the offsets in the bitmap of an image; the offsets in the data of snapshots. -/
def InBounds : RangeRequest → Prop
  | .coverageReport _ imageStart imageLength _ =>
    (∀ addr, Memory.tobank (api.backend.target.board.machine.memory.bigramSelect
        (addr &&& 0xffff) false) < Memory.totalMemory) ∧
      ∀ addr, imageStart.toNat ≤ addr → addr < (imageStart.setWidth 32 + imageLength).toNat →
        addr - imageStart.toNat < imageLength.toNat
  | .diffMemorySnapshots idA idB start length =>
    AgentApi.diffMemorySnapshots store idA idB start length ≠ none
  | _ =>
    ∀ addr, Memory.tobank (api.backend.target.board.machine.memory.bigramSelect
      (addr &&& 0xffff) false) < Memory.totalMemory

/-- The call is accepted only when its range ends inside memory, and then it stays in bounds. -/
def Safe (request : RangeRequest) : Prop :=
  request.Accepted api store → request.rangeEnd ≤ 0x10000 ∧ request.InBounds api store

/-- The sum is too large, but not in 32 bits. -/
def Wraps (start : Word) (length : Nat) : Prop :=
  0x10000 < start.toNat + length ∧ (start.toNat + length) % 2 ^ 32 ≤ 0x10000

instance (start : Word) (length : Nat) : Decidable (Wraps start length) :=
  inferInstanceAs (Decidable (_ ∧ _))

/-- The sum of the start and the length does not wrap, or another check refuses the call. -/
def Exact : RangeRequest → Prop
  | .readMemory address size => ¬ Wraps address size.toNat
  | .writeMemory address data => ¬ Wraps address data.length
  | .coverageReport entryPoints imageStart imageLength maxInstructions =>
    ¬ Wraps imageStart imageLength.toNat ∨ entryPoints = [] ∨
      entryPoints.length > AgentLimits.maxAnalysisEntryPoints ∨ maxInstructions = 0 ∨
        maxInstructions > AgentLimits.maxCodeAnalysisInstructions
  | .diffMemorySnapshots idA idB start length =>
    ¬ Wraps start length.toNat ∨ store.snapshots idA = none ∨ store.snapshots idB = none ∨
      (store.getMemorySnapshot idA).covers start length = false ∨
        (store.getMemorySnapshot idB).covers start length = false
  | .disassembleImage _ _ => True
  | .getVramBytes _ _ => True

end RangeRequest

/-! ### The checks -/

section Checks

variable {δ : Type}

theorem sum_toNat (start : Word) (length : BitVec 32) :
    (start.setWidth 32 + length).toNat = (start.toNat + length.toNat) % 2 ^ 32 := by
  rw [BitVec.toNat_add, BitVec.toNat_setWidth]
  omega

theorem endAddr_toNat (address : Word) (size : BitVec 64) :
    (AgentApi.endAddr address size).toNat = (address.toNat + size.toNat) % 2 ^ 32 := by
  unfold AgentApi.endAddr
  rw [BitVec.toNat_setWidth, BitVec.toNat_add, BitVec.toNat_setWidth]
  omega

theorem sum_le_iff (start : Word) (length : BitVec 32) :
    ¬ start.setWidth 32 + length > 0x10000 ↔
      (start.toNat + length.toNat) % 2 ^ 32 ≤ 0x10000 := by
  rw [gt_iff_lt, BitVec.not_lt, BitVec.le_def, sum_toNat]
  rfl

theorem endAddr_le_iff (address : Word) (size : BitVec 64) :
    ¬ AgentApi.endAddr address size > 0x10000 ↔
      (address.toNat + size.toNat) % 2 ^ 32 ≤ 0x10000 := by
  rw [gt_iff_lt, BitVec.not_lt, BitVec.le_def, endAddr_toNat]
  rfl

/-- A check of the sum in 32 bits is as good as one of the sum exactly when the sum does not
wrap. -/
theorem safe_iff_not_wraps {start : Word} {length : Nat} {accepted inBounds : Prop}
    (checked : accepted ↔ (start.toNat + length) % 2 ^ 32 ≤ 0x10000) (bounded : inBounds) :
    (accepted → start.toNat + length ≤ 0x10000 ∧ inBounds) ↔
      ¬ RangeRequest.Wraps start length := by
  unfold RangeRequest.Wraps
  rw [checked]
  constructor
  · intro safe wraps
    exact absurd (safe wraps.2).1 (Nat.not_le.mpr wraps.1)
  · intro exact' small
    refine ⟨?_, bounded⟩
    by_contra large
    exact exact' ⟨Nat.lt_of_not_le large, small⟩

/-- Every address selects a cell inside memory. -/
theorem cells_inside {memory : Memory} (paged : memory.Paged) (addr : Nat) :
    Memory.tobank (memory.bigramSelect (addr &&& 0xffff) false) < Memory.totalMemory :=
  Memory.tobank_lt (paged.bigramSelect_lt addr false)

theorem readMemory_accepted_iff (api : AgentApi δ) (address : Word) (size : BitVec 64) :
    (api.readMemory address size).Accepted ↔
      (address.toNat + size.toNat) % 2 ^ 32 ≤ 0x10000 := by
  rw [← endAddr_le_iff]
  unfold AgentApi.readMemory
  split
  · rename_i beyond
    exact iff_of_false (fun accepted => Bool.noConfusion accepted) (not_not.mpr beyond)
  · rename_i inside
    exact iff_of_true trivial inside

theorem writeMemory_accepted_iff [Chips δ] (api : AgentApi δ) (address : Word)
    (data : List Byte) : (api.writeMemory address data).2.Accepted ↔
      (address.toNat + data.length) % 2 ^ 32 ≤ 0x10000 := by
  have wrapped : (address.toNat + (BitVec.ofNat 64 data.length).toNat) % 2 ^ 32 =
      (address.toNat + data.length) % 2 ^ 32 := by
    rw [BitVec.toNat_ofNat]
    omega
  rw [← wrapped, ← endAddr_le_iff]
  unfold AgentApi.writeMemory
  split
  · rename_i beyond
    exact iff_of_false (fun accepted => Bool.noConfusion accepted) (not_not.mpr beyond)
  · rename_i inside
    refine iff_of_true ?_ inside
    dsimp only
    split
    · exact trivial
    · exact rfl

/-- The report is made when the entries, the sum and the limit pass. -/
theorem coverageReport_accepted_iff (api : AgentApi δ) (entryPoints : List Word)
    (imageStart : Word) (imageLength : BitVec 32) (maxInstructions : Nat) :
    (api.coverageReport entryPoints imageStart imageLength maxInstructions).2.Accepted ↔
      entryPoints ≠ [] ∧ imageLength ≠ 0 ∧
        (imageStart.toNat + imageLength.toNat) % 2 ^ 32 ≤ 0x10000 ∧ maxInstructions ≠ 0 ∧
          maxInstructions ≤ AgentLimits.maxCodeAnalysisInstructions ∧
            entryPoints.length ≤ AgentLimits.maxAnalysisEntryPoints := by
  rw [← sum_le_iff]
  unfold AgentApi.coverageReport
  dsimp only
  split
  · rename_i none'
    exact iff_of_false (fun accepted => Bool.noConfusion accepted) fun all => all.1 none'
  · rename_i some'
    split
    · rename_i invalid
      refine iff_of_false (fun accepted => Bool.noConfusion accepted) fun all => ?_
      exact invalid.elim all.2.1 all.2.2.1
    · rename_i valid
      obtain ⟨nonempty, inside⟩ := not_or.mp valid
      split
      · rename_i outside
        refine iff_of_false (fun accepted => Bool.noConfusion accepted) fun all => ?_
        exact outside.elim all.2.2.2.1 (Nat.not_lt.mpr all.2.2.2.2.1)
      · rename_i limits
        obtain ⟨positive, most⟩ := not_or.mp limits
        unfold AgentApi.analyzeCodeMulti
        rw [if_neg some', if_neg positive]
        split
        · rename_i many
          exact iff_of_false (fun accepted => Bool.noConfusion accepted) fun all =>
            Nat.not_lt.mpr all.2.2.2.2.2 many
        · rename_i few
          exact iff_of_true trivial
            ⟨some', nonempty, inside, positive, Nat.not_lt.mp most, Nat.not_lt.mp few⟩

/-- The image is looked up through the memory. -/
theorem disassembleImage_accepted (api : AgentApi δ) (address : Word) (length : BitVec 32)
    (accepted : (api.disassembleImage address length).2.Accepted) :
    address.toNat + length.toNat ≤ 0x10000 := by
  unfold AgentApi.disassembleImage at accepted
  split at accepted
  · exact Bool.noConfusion accepted
  · split at accepted
    · exact Bool.noConfusion accepted
    · rename_i short
      split at accepted
      · exact Bool.noConfusion accepted
      · rename_i inside
        have sum := (sum_le_iff address length).mp inside
        have limit : length.toNat ≤ 65536 := Nat.not_lt.mp short
        omega

theorem getVramBytes_accepted (api : AgentApi δ) (address : Word) (length : BitVec 32)
    (accepted : (api.getVramBytes address length).Accepted) :
    address.toNat + length.toNat ≤ 0x10000 := by
  unfold AgentApi.getVramBytes at accepted
  split at accepted
  · exact Bool.noConfusion accepted
  · split at accepted
    · exact Bool.noConfusion accepted
    · split at accepted
      · exact Bool.noConfusion accepted
      · rename_i inside
        split at accepted
        · exact Bool.noConfusion accepted
        · rename_i short
          have sum := (sum_le_iff address length).mp inside
          have limit : length.toNat ≤ 32768 := Nat.not_lt.mp short
          omega

end Checks

/-! ### Differences of snapshots -/

namespace DiffWindow

variable {window : DiffWindow}

/-- The loop answers with a result or with the limit. -/
theorem ranges_accepted (fuel : Nat) : ∀ {i : Nat} {ranges : List MemoryDiffRange}
    {changedBytes : Nat} {answer : AgentApiResult MemoryDiffResult},
      window.ranges fuel i ranges changedBytes = some answer → answer.Accepted := by
  induction fuel with
  | zero =>
    intro i ranges changedBytes answer done
    rw [← Option.some.inj done]
    exact trivial
  | succ fuel inductionHypothesis =>
    intro i ranges changedBytes answer done
    unfold DiffWindow.ranges at done
    split at done
    · obtain ⟨a, -, done⟩ := Option.bind_eq_some_iff.mp done
      obtain ⟨b, -, done⟩ := Option.bind_eq_some_iff.mp done
      split at done
      · exact inductionHypothesis done
      · obtain ⟨rng, -, done⟩ := Option.bind_eq_some_iff.mp done
        dsimp only at done
        split at done
        · rw [← Option.some.inj done]
          exact rfl
        · exact inductionHypothesis done
    · rw [← Option.some.inj done]
      exact trivial

end DiffWindow

namespace MemorySnapshots

variable (store : MemorySnapshots) (id : BitVec 32)

/-- A snapshot that is there has data. -/
theorem data_eq_nil_iff : (store.getMemorySnapshot id).data = [] ↔ store.snapshots id = none := by
  unfold getMemorySnapshot
  cases found : store.snapshots id with
  | none => exact iff_of_true rfl rfl
  | some snap =>
    have some' := (store.inside id snap found).1
    rw [Option.getD_some]
    exact iff_of_false (List.length_pos_iff.mp some') (Option.some_ne_none snap)

/-- A range that is covered and does not wrap lies in the data. -/
theorem covers_inside {start : Word} {length : BitVec 32}
    (fits : start.toNat + length.toNat ≤ 0x10000)
    (covered : (store.getMemorySnapshot id).covers start length = true)
    (present : store.snapshots id ≠ none) :
    (start.setWidth 32 - (store.getMemorySnapshot id).startAddress.setWidth 32 : BitVec 32).toNat +
      length.toNat ≤ (store.getMemorySnapshot id).data.length := by
  obtain ⟨snap, found⟩ := Option.ne_none_iff_exists'.mp present
  have fits' := (store.inside id snap found).2
  have same : store.getMemorySnapshot id = snap := by
    unfold getMemorySnapshot
    rw [found, Option.getD_some]
  rw [same] at covered ⊢
  unfold MemorySnapshotData.covers at covered
  rw [Bool.and_eq_true, decide_eq_true_eq, decide_eq_true_eq, ge_iff_le, BitVec.le_def,
    BitVec.le_def, sum_toNat, BitVec.toNat_add, BitVec.toNat_ofNat, BitVec.toNat_setWidth,
    BitVec.toNat_setWidth] at covered
  rw [BitVec.toNat_sub, BitVec.toNat_setWidth, BitVec.toNat_setWidth]
  omega

end MemorySnapshots

/-- The difference is looked for when the sum passes and both snapshots cover the range. -/
theorem diffMemorySnapshots_safe_iff (store : MemorySnapshots) (idA idB : BitVec 32) (start : Word)
    (length : BitVec 32) :
    ((∀ answer, AgentApi.diffMemorySnapshots store idA idB start length = some answer →
        answer.Accepted) → start.toNat + length.toNat ≤ 0x10000 ∧
          AgentApi.diffMemorySnapshots store idA idB start length ≠ none) ↔
      ¬ RangeRequest.Wraps start length.toNat ∨ store.snapshots idA = none ∨
        store.snapshots idB = none ∨
          (store.getMemorySnapshot idA).covers start length = false ∨
            (store.getMemorySnapshot idB).covers start length = false := by
  have refused : ∀ (code : ErrorCode) (message : String), code.refuses = true →
      AgentApi.diffMemorySnapshots store idA idB start length =
          some (AgentApiResult.fail code message) →
        ¬ ∀ answer, AgentApi.diffMemorySnapshots store idA idB start length = some answer →
          answer.Accepted := by
    intro code message refuses answered accepted
    have allowed : code.refuses = false := accepted _ answered
    rw [refuses] at allowed
    cases allowed
  by_cases invalid : length = 0 ∨ start.setWidth 32 + length > 0x10000
  · have answered : AgentApi.diffMemorySnapshots store idA idB start length =
        some (.fail .invalidRange "invalid diff range") := by
      unfold AgentApi.diffMemorySnapshots
      rw [if_pos invalid]
    refine iff_of_true (fun accepted => absurd accepted (refused _ _ rfl answered)) (Or.inl ?_)
    rintro ⟨large, small⟩
    rcases invalid with zero | beyond
    · have low := start.isLt
      rw [zero] at large
      exact absurd large (by simpa using Nat.le_of_lt low)
    · exact (sum_le_iff start length).mpr small beyond
  · have small := (sum_le_iff start length).mp (not_or.mp invalid).2
    by_cases absent : (store.getMemorySnapshot idA).data = [] ∨
        (store.getMemorySnapshot idB).data = []
    · have answered : AgentApi.diffMemorySnapshots store idA idB start length =
          some (.fail .notFound "One or both snapshots not found or invalidated") := by
        unfold AgentApi.diffMemorySnapshots
        rw [if_neg invalid]
        dsimp only
        rw [if_pos absent]
      rw [store.data_eq_nil_iff, store.data_eq_nil_iff] at absent
      refine iff_of_true (fun accepted => absurd accepted (refused _ _ rfl answered)) (Or.inr ?_)
      exact absent.elim Or.inl fun second => Or.inr (Or.inl second)
    · by_cases uncovered : (!(store.getMemorySnapshot idA).covers start length ||
          !(store.getMemorySnapshot idB).covers start length) = true
      · have answered : AgentApi.diffMemorySnapshots store idA idB start length =
            some (.fail .invalidRange "requested range is not covered by both snapshots") := by
          unfold AgentApi.diffMemorySnapshots
          rw [if_neg invalid]
          dsimp only
          rw [if_neg absent, if_pos uncovered]
        rw [Bool.or_eq_true, Bool.not_eq_true', Bool.not_eq_true'] at uncovered
        refine iff_of_true (fun accepted => absurd accepted (refused _ _ rfl answered)) ?_
        exact Or.inr (Or.inr (Or.inr uncovered))
      · set window : DiffWindow :=
          { dataA := (store.getMemorySnapshot idA).data
            dataB := (store.getMemorySnapshot idB).data
            offA := (start.setWidth 32 -
              (store.getMemorySnapshot idA).startAddress.setWidth 32 : BitVec 32).toNat
            offB := (start.setWidth 32 -
              (store.getMemorySnapshot idB).startAddress.setWidth 32 : BitVec 32).toNat
            start
            length := length.toNat } with viewing
        have looped : AgentApi.diffMemorySnapshots store idA idB start length =
            window.ranges length.toNat 0 [] 0 := by
          unfold AgentApi.diffMemorySnapshots
          rw [if_neg invalid]
          dsimp only
          rw [if_neg absent, if_neg uncovered]
        rw [store.data_eq_nil_iff, store.data_eq_nil_iff] at absent
        rw [Bool.or_eq_true, Bool.not_eq_true', Bool.not_eq_true'] at uncovered
        obtain ⟨presentA, presentB⟩ := not_or.mp absent
        obtain ⟨coveredA, coveredB⟩ := not_or.mp uncovered
        rw [looped]
        constructor
        · intro safe
          obtain ⟨fits, -⟩ := safe fun answer done => DiffWindow.ranges_accepted _ done
          exact Or.inl fun wraps => Nat.not_le.mpr wraps.1 fits
        · rintro (exact' | none' | none' | outside | outside)
          · intro _
            have fits : start.toNat + length.toNat ≤ 0x10000 := by
              by_contra large
              exact exact' ⟨Nat.lt_of_not_le large, small⟩
            have inside : window.Inside :=
              ⟨store.covers_inside idA fits (Bool.not_eq_false _ ▸ coveredA) presentA,
                store.covers_inside idB fits (Bool.not_eq_false _ ▸ coveredB) presentB⟩
            have answered := DiffWindow.ranges_eq inside length.toNat (i := 0) [] 0
              (Nat.le_of_eq (Nat.sub_zero _)) (Nat.zero_le _) (Nat.zero_le _)
            refine ⟨fits, ?_⟩
            rw [answered]
            exact Option.some_ne_none _
          · exact absurd none' presentA
          · exact absurd none' presentB
          · exact absurd outside coveredA
          · exact absurd outside coveredB

namespace RangeRequest

variable {δ : Type} [Chips δ]

/-- A call is accepted only for a range inside memory, and stays in bounds, exactly when the sum
does not wrap or another check refuses it. -/
theorem safe_iff_exact (api : AgentApi δ) (store : MemorySnapshots)
    (paged : api.backend.target.board.machine.memory.Paged) (request : RangeRequest) :
    request.Safe api store ↔ request.Exact store := by
  cases request with
  | readMemory address size =>
    exact safe_iff_not_wraps (readMemory_accepted_iff api address size) (cells_inside paged)
  | writeMemory address data =>
    exact safe_iff_not_wraps (writeMemory_accepted_iff api address data) (cells_inside paged)
  | coverageReport entryPoints imageStart imageLength maxInstructions =>
    have low := imageStart.isLt
    unfold Safe Accepted Exact
    dsimp only
    rw [coverageReport_accepted_iff]
    constructor
    · intro safe
      by_cases wraps : Wraps imageStart imageLength.toNat
      · refine Or.inr ?_
        by_contra passes
        obtain ⟨some', passes⟩ := not_or.mp passes
        obtain ⟨few, passes⟩ := not_or.mp passes
        obtain ⟨positive, most⟩ := not_or.mp passes
        have nonempty : imageLength ≠ 0 := by
          intro zero
          have large := wraps.1
          rw [zero] at large
          exact absurd large (by simpa using Nat.le_of_lt low)
        have fits := (safe ⟨some', nonempty, wraps.2, positive, Nat.not_lt.mp most,
          Nat.not_lt.mp few⟩).1
        exact Nat.not_le.mpr wraps.1 fits
      · exact Or.inl wraps
    · rintro (exact' | none' | many | zero | much) ⟨some', nonempty, small, positive, most, few⟩
      · have fits : imageStart.toNat + imageLength.toNat ≤ 0x10000 := by
          by_contra large
          exact exact' ⟨Nat.lt_of_not_le large, small⟩
        refine ⟨fits, cells_inside paged, fun addr above below => ?_⟩
        rw [sum_toNat] at below
        omega
      · exact absurd none' some'
      · exact absurd many (Nat.not_lt.mpr few)
      · exact absurd zero positive
      · exact absurd much (Nat.not_lt.mpr most)
  | diffMemorySnapshots idA idB start length =>
    exact diffMemorySnapshots_safe_iff store idA idB start length
  | disassembleImage address length =>
    exact iff_of_true (fun accepted =>
      ⟨disassembleImage_accepted api address length accepted, cells_inside paged⟩) trivial
  | getVramBytes address length =>
    exact iff_of_true (fun accepted =>
      ⟨getVramBytes_accepted api address length accepted, cells_inside paged⟩) trivial

theorem safe_iff_exact_started :
    (RangeRequest.readMemory 0xffff 1).Safe AgentApi.started MemorySnapshots.init ↔
      (RangeRequest.readMemory 0xffff 1).Exact MemorySnapshots.init :=
  safe_iff_exact AgentApi.started MemorySnapshots.init ⟨by decide, by decide⟩ _

/-- A snapshot of the byte at 0001. -/
def oneByte : MemorySnapshots := (MemorySnapshots.init.createMemorySnapshot (fun _ => 0) 1 1).1

/-- A difference of FFFFFFFF bytes from 0001 on is looked for in a snapshot of one byte. -/
theorem diff_of_wrapped_range :
    ¬ ∀ (api : AgentApi Unit) (store : MemorySnapshots),
      api.backend.target.board.machine.memory.Paged →
        ∀ request : RangeRequest, request.Safe api store := by
  intro safe
  have here := safe AgentApi.started oneByte ⟨by decide, by decide⟩
    (.diffMemorySnapshots 1 1 1 0xffffffff)
  have exact' := (diffMemorySnapshots_safe_iff oneByte 1 1 1 0xffffffff).mp here
  exact absurd exact' (by decide)

end RangeRequest

end VectorDebugger

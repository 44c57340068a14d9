import VectorDebugger.Debugger.AgentApi
import VectorDebugger.Debugger.Spelling

/-!
# The text of the history

`getInstructionHistory` takes the bytes of an entry from the recorded event, but its text from the
memory as it is now. The two agree when memory still holds the recorded bytes at the recorded
address, or the opcodes there and in the record are two of the eight whose text is `NOP`.
-/

namespace VectorDebugger

open Disassembler

/-- The bytes of an instruction are those from its address on. -/
theorem encoded_eq_map (address : Word) (readByte : DisasmReadFn) :
    (disassemble address readByte).encoded =
      (List.range (getLength (readByte address))).map fun i =>
        readByte (address + BitVec.ofNat 16 i) := by
  unfold DisassembledInstruction.encoded disassemble operandBytes
  dsimp only
  rcases length_of_format (readByte address) with ⟨-, length⟩ | ⟨-, length, -⟩ | ⟨-, length, -⟩ <;>
    rw [length] <;> simp [List.range_succ]

/-- Two readers show the same instruction bytes at an address. -/
theorem encoded_eq_iff (address : Word) (readByte other : DisasmReadFn) :
    (disassemble address readByte).encoded = (disassemble address other).encoded ↔
      ∀ i < getLength (other address),
        readByte (address + BitVec.ofNat 16 i) = other (address + BitVec.ofNat 16 i) := by
  constructor
  · intro same
    have opcode := (parts_of_encoded same).1
    rw [encoded_eq_map, encoded_eq_map, opcode] at same
    exact fun i below => List.map_inj_left.mp same i (List.mem_range.mpr below)
  · intro bytes
    have opcode : readByte address = other address := by
      have first := bytes 0 (CodeAnalysis.getLength_pos _)
      rw [BitVec.add_zero] at first
      exact first
    rw [encoded_eq_map, encoded_eq_map, opcode]
    exact List.map_inj_left.mpr fun i below => bytes i (List.mem_range.mp below)

namespace InstructionHistoryEntry

/-- A reader of the bytes of an entry. -/
def recorded (entry : InstructionHistoryEntry) : DisasmReadFn := fun addr =>
  entry.bytes.getD (addr - entry.address).toNat 0

/-- The text of an entry is the disassembly of its own bytes. -/
def Consistent (entry : InstructionHistoryEntry) : Prop :=
  entry.disassembly = (disassemble entry.address entry.recorded).text

/-- Memory holds the bytes of an entry at its address, or another `NOP` in place of its `NOP`. -/
def HeldBy (entry : InstructionHistoryEntry) (readByte : DisasmReadFn) : Prop :=
  (∀ i < getLength (entry.recorded entry.address),
      readByte (entry.address + BitVec.ofNat 16 i) = entry.bytes.getD i 0) ∨
    isNop (readByte entry.address) = true ∧ isNop (entry.recorded entry.address) = true

end InstructionHistoryEntry

/-- An entry is consistent exactly when memory holds its bytes. -/
theorem InstructionEvent.consistent_iff (ev : InstructionEvent) (readByte : DisasmReadFn) :
    (ev.historyEntry readByte).Consistent ↔
      (ev.historyEntry readByte).HeldBy readByte := by
  have text : (ev.historyEntry readByte).disassembly =
      (disassemble (ev.historyEntry readByte).address readByte).text := rfl
  unfold InstructionHistoryEntry.Consistent InstructionHistoryEntry.HeldBy
  rw [text, text_eq_iff]
  generalize ev.historyEntry readByte = entry
  unfold DisassembledInstruction.SameCode
  rw [encoded_eq_iff]
  have short : getLength (entry.recorded entry.address) ≤ 3 := by
    rcases length_of_format (entry.recorded entry.address) with
      ⟨-, length⟩ | ⟨-, length, -⟩ | ⟨-, length, -⟩ <;> omega
  refine or_congr_left (forall_congr' fun i => imp_congr_right fun below => ?_)
  have offset : (entry.address + BitVec.ofNat 16 i - entry.address).toNat = i := by
    rw [BitVec.add_comm, BitVec.add_sub_cancel, BitVec.toNat_ofNat]
    exact Nat.mod_eq_of_lt (by omega)
  have byte : entry.recorded (entry.address + BitVec.ofNat 16 i) = entry.bytes.getD i 0 := by
    unfold InstructionHistoryEntry.recorded
    rw [offset]
  rw [byte]

namespace AgentApi

variable {δ : Type}

/-- The events of which `getInstructionHistory` makes its entries. -/
def lastEvents (api : AgentApi δ) (count : Nat) : List InstructionEvent :=
  let all := api.backend.instrumentation.instrHistory.snapshot
  all.drop (all.length - min count AgentLimits.maxHistoryEntries)

/-- Every entry that is returned is consistent. -/
def HistoryConsistent (api : AgentApi δ) (count : Nat) : Prop :=
  ∀ entries, (api.getInstructionHistory count).2 = .ok entries →
    ∀ entry ∈ entries, entry.Consistent

theorem getInstructionHistory_ok (api : AgentApi δ) {count : Nat} (some' : count ≠ 0) :
    (api.getInstructionHistory count).2 =
      .ok ((api.lastEvents count).map (·.historyEntry api.backend.readByte)) := by
  unfold getInstructionHistory
  rw [if_neg some']
  rfl

/-- All entries are consistent exactly when memory holds the bytes of each of them. -/
theorem getInstructionHistory_consistent_iff (api : AgentApi δ) (count : Nat) :
    api.HistoryConsistent count ↔ count = 0 ∨ ∀ ev ∈ api.lastEvents count,
      (ev.historyEntry api.backend.readByte).HeldBy api.backend.readByte := by
  unfold HistoryConsistent
  by_cases none' : count = 0
  · refine ⟨fun _ => Or.inl none', fun _ entries listed => ?_⟩
    unfold getInstructionHistory at listed
    rw [if_pos none'] at listed
    cases listed
  · rw [api.getInstructionHistory_ok none']
    constructor
    · intro consistent
      refine Or.inr fun ev listed => ?_
      exact (ev.consistent_iff _).mp
        (consistent _ rfl _ (List.mem_map_of_mem listed))
    · rintro (wrong | held) entries same entry listed
      · exact absurd wrong none'
      · injection same with same
        rw [← same] at listed
        obtain ⟨ev, known, rfl⟩ := List.mem_map.mp listed
        exact (ev.consistent_iff _).mpr (held ev known)

/-- An interface whose history has one instruction, and whose memory is blank. -/
def blankWithHistory (ev : InstructionEvent) : AgentApi Unit :=
  let backend := DebugBackend.init () [] (fun _ => [])
  { backend := { backend with
      instrumentation := { backend.instrumentation with
        instrHistory := RingBuffer.empty.push ev } }
    table := .init }

/-- The record of an `INR A`, executed at 100h. -/
def recordedIncrement : InstructionEvent :=
  let cpu := (Board.powerOn () []).machine.cpu
  { sequence := 0, opcode := 0x3c, length := 1, operandBytes := (0, 0)
    before := { cpu with pc := 0x0100 }, after := { cpu with a := 1, pc := 0x0101 } }

/-- Where the `INR A` has been overwritten, its entry is shown as `NOP`. -/
theorem getInstructionHistory_overwritten :
    ¬(blankWithHistory recordedIncrement).HistoryConsistent 1 := by
  intro consistent
  have listed : (blankWithHistory recordedIncrement).lastEvents 1 = [recordedIncrement] := rfl
  have entries := getInstructionHistory_ok (blankWithHistory recordedIncrement) Nat.one_ne_zero
  have entry := consistent _ entries _ (List.mem_map_of_mem (by
    rw [listed]
    exact List.mem_singleton_self _))
  have blank : (blankWithHistory recordedIncrement).backend.readByte 0x0100 = 0 := rfl
  rcases (recordedIncrement.consistent_iff _).mp entry with held | ⟨-, nop⟩
  · have byte := held 0 (by decide)
    have wrong : (blankWithHistory recordedIncrement).backend.readByte 0x0100 = 0x3c := byte
    rw [blank] at wrong
    exact absurd wrong (by decide)
  · exact absurd nop (by decide)

end AgentApi

end VectorDebugger

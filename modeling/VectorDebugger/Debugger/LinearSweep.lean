import VectorDebugger.Debugger.CodeSearch
import VectorDebugger.Debugger.Queries

/-!
# Linear disassembly tiles its range

The loop of `linearDisassemble` goes from one instruction to the next until the range ends or an
instruction does not fit. So its instructions tile a part of the range, and a range may be cut
after any of them.
-/

namespace VectorDebugger

variable {readByte : DisasmReadFn} {rangeEnd addr mid stop fuel : Nat}

/-- The bytes of memory from an address to before another. -/
def memoryBytes (readByte : DisasmReadFn) (addr stop : Nat) : List Byte :=
  (List.range' addr (stop - addr)).map fun k => readByte (BitVec.ofNat 16 k)

theorem memoryBytes_append (low : addr ≤ mid) (high : mid ≤ stop) :
    memoryBytes readByte addr mid ++ memoryBytes readByte mid stop =
      memoryBytes readByte addr stop := by
  have split : stop - addr = (mid - addr) + (stop - mid) := by omega
  have next : addr + (mid - addr) = mid := by omega
  unfold memoryBytes
  rw [split, ← List.range'_append_1, List.map_append, next]

/-- The entry is what is decoded at the address, with the bytes that it spans. -/
structure Placed (readByte : DisasmReadFn) (addr : Nat) (inst : DisassembledRangeInstruction) :
    Prop where
  /-- It is at the address. -/
  address : inst.address = BitVec.ofNat 16 addr
  /-- It is decoded there. -/
  decoded : inst = (disassemble (BitVec.ofNat 16 addr) readByte).rangeEntry
  /-- It has a byte. -/
  nonempty : 0 < inst.size
  /-- It has the bytes of memory. -/
  bytes : inst.bytes = memoryBytes readByte addr (addr + inst.size)

/-- Entries that follow each other from an address to another. -/
def Tiles (readByte : DisasmReadFn) (addr : Nat) :
    List DisassembledRangeInstruction → Nat → Prop
  | [], stop => stop = addr
  | inst :: rest, stop => Placed readByte addr inst ∧ Tiles readByte (addr + inst.size) rest stop

namespace Tiles

variable {insts front back : List DisassembledRangeInstruction}

/-- The entries end where their lengths say. -/
theorem stop_eq (tiles : Tiles readByte addr insts stop) :
    stop = addr + (insts.map (·.size)).sum := by
  induction insts generalizing addr with
  | nil => exact tiles
  | cons inst rest inductionHypothesis =>
    have later := inductionHypothesis tiles.2
    rw [List.map_cons, List.sum_cons]
    omega

/-- Their bytes are those of memory. -/
theorem flatMap_bytes (tiles : Tiles readByte addr insts stop) :
    insts.flatMap (·.bytes) = memoryBytes readByte addr stop := by
  induction insts generalizing addr with
  | nil =>
    have same : stop = addr := tiles
    unfold memoryBytes
    rw [same, Nat.sub_self]
    rfl
  | cons inst rest inductionHypothesis =>
    have ends := tiles.2.stop_eq
    rw [List.flatMap_cons, tiles.1.bytes, inductionHypothesis tiles.2]
    exact memoryBytes_append (by omega) (by omega)

/-- Between two entries one part ends and the other starts. -/
theorem append_iff : Tiles readByte addr (front ++ back) stop ↔
    ∃ mid, Tiles readByte addr front mid ∧ Tiles readByte mid back stop := by
  induction front generalizing addr with
  | nil =>
    constructor
    · exact fun tiles => ⟨addr, rfl, tiles⟩
    · rintro ⟨mid, same, tiles⟩
      have here : mid = addr := same
      rw [here] at tiles
      exact tiles
  | cons inst front inductionHypothesis =>
    constructor
    · intro tiles
      obtain ⟨mid, first, second⟩ := inductionHypothesis.mp tiles.2
      exact ⟨mid, ⟨tiles.1, first⟩, second⟩
    · rintro ⟨mid, first, second⟩
      exact ⟨first.1, inductionHypothesis.mpr ⟨mid, first.2, second⟩⟩

end Tiles

/-- The bytes of a decoded instruction are those of memory. -/
theorem placed_rangeEntry
    (fits : addr + getLength (readByte (BitVec.ofNat 16 addr)) ≤ 0x10000) :
    Placed readByte addr (disassemble (BitVec.ofNat 16 addr) readByte).rangeEntry where
  address := rfl
  decoded := rfl
  nonempty := CodeAnalysis.getLength_pos _
  bytes := by
    have positive := CodeAnalysis.getLength_pos (readByte (BitVec.ofNat 16 addr))
    have most := getLength_le (readByte (BitVec.ofNat 16 addr))
    have one : BitVec.ofNat 16 addr + 1 = BitVec.ofNat 16 (addr + 1) := by
      rw [BitVec.ofNat_add]
      rfl
    have two : BitVec.ofNat 16 addr + 2 = BitVec.ofNat 16 (addr + 1 + 1) := by
      rw [BitVec.ofNat_add, BitVec.ofNat_add, BitVec.add_assoc]
      rfl
    unfold memoryBytes DisassembledInstruction.rangeEntry disassemble Disassembler.operandBytes
    dsimp only
    rw [Nat.add_sub_cancel_left, one, two]
    generalize getLength (readByte (BitVec.ofNat 16 addr)) = length at *
    have lengths : length = 1 ∨ length = 2 ∨ length = 3 := by omega
    rcases lengths with rfl | rfl | rfl <;> rfl

/-! ### The loop -/

/-- The loop of `linearDisassemble` from an address, with as many passes as it may need. -/
def sweepFrom (readByte : DisasmReadFn) (rangeEnd addr : Nat) :
    List DisassembledInstruction × Option DisassembledInstruction :=
  linearSweep readByte rangeEnd (rangeEnd - addr) addr

/-- More passes change nothing. -/
theorem linearSweep_enough (least : Nat) : ∀ {addr fuel : Nat}, rangeEnd - addr ≤ least →
    least ≤ fuel → linearSweep readByte rangeEnd fuel addr =
      linearSweep readByte rangeEnd least addr := by
  induction least with
  | zero =>
    intro addr fuel none' _
    cases fuel with
    | zero => rfl
    | succ fuel =>
      unfold linearSweep
      rw [if_neg (by omega)]
  | succ least inductionHypothesis =>
    intro addr fuel enough more
    cases fuel with
    | zero => omega
    | succ fuel =>
      have positive := CodeAnalysis.getLength_pos (readByte (BitVec.ofNat 16 addr))
      have length : (disassemble (BitVec.ofNat 16 addr) readByte).length =
          getLength (readByte (BitVec.ofNat 16 addr)) := rfl
      have rest := @inductionHypothesis
        (addr + (disassemble (BitVec.ofNat 16 addr) readByte).length) fuel (by omega) (by omega)
      unfold linearSweep
      dsimp only
      rw [rest]

theorem sweepFrom_past (past : rangeEnd ≤ addr) :
    sweepFrom readByte rangeEnd addr = ([], none) := by
  unfold sweepFrom
  rw [Nat.sub_eq_zero_of_le past]
  rfl

/-- One pass of the loop. -/
theorem sweepFrom_step (inside : addr < rangeEnd) : sweepFrom readByte rangeEnd addr =
    let di := disassemble (BitVec.ofNat 16 addr) readByte
    if addr + di.length > rangeEnd then ([], some di)
    else (di :: (sweepFrom readByte rangeEnd (addr + di.length)).1,
      (sweepFrom readByte rangeEnd (addr + di.length)).2) := by
  have positive := CodeAnalysis.getLength_pos (readByte (BitVec.ofNat 16 addr))
  have length : (disassemble (BitVec.ofNat 16 addr) readByte).length =
      getLength (readByte (BitVec.ofNat 16 addr)) := rfl
  obtain ⟨least, passes⟩ : ∃ least, rangeEnd - addr = least + 1 := ⟨rangeEnd - addr - 1, by omega⟩
  have rest := @linearSweep_enough readByte rangeEnd
    (rangeEnd - (addr + (disassemble (BitVec.ofNat 16 addr) readByte).length))
    (addr + (disassemble (BitVec.ofNat 16 addr) readByte).length) least (Nat.le_refl _) (by omega)
  unfold sweepFrom
  rw [passes]
  conv_lhs => unfold linearSweep
  dsimp only
  rw [if_pos inside, rest]

/-- The loop tiles the range up to where it stops: at the end, or before an instruction that does
not fit. -/
theorem sweepFrom_tiles (readByte : Word → Byte) (small : rangeEnd ≤ 0x10000) (count : Nat) :
    ∀ {addr : Nat}, addr ≤ rangeEnd → rangeEnd - addr ≤ count →
      ∃ stop, Tiles readByte addr ((sweepFrom readByte rangeEnd addr).1.map (·.rangeEntry)) stop ∧
        stop ≤ rangeEnd ∧
        ((sweepFrom readByte rangeEnd addr).2 = none ∧ stop = rangeEnd ∨
          (sweepFrom readByte rangeEnd addr).2 =
              some (disassemble (BitVec.ofNat 16 stop) readByte) ∧
            stop < rangeEnd ∧ rangeEnd < stop + getLength (readByte (BitVec.ofNat 16 stop))) := by
  induction count with
  | zero =>
    intro addr low high
    have past : addr = rangeEnd := by omega
    rw [sweepFrom_past (by omega)]
    exact ⟨addr, rfl, low, Or.inl ⟨rfl, past⟩⟩
  | succ count inductionHypothesis =>
    intro addr low high
    by_cases inside : addr < rangeEnd
    · have positive := CodeAnalysis.getLength_pos (readByte (BitVec.ofNat 16 addr))
      have length : (disassemble (BitVec.ofNat 16 addr) readByte).length =
          getLength (readByte (BitVec.ofNat 16 addr)) := rfl
      rw [sweepFrom_step inside]
      dsimp only
      by_cases beyond : addr + (disassemble (BitVec.ofNat 16 addr) readByte).length > rangeEnd
      · rw [if_pos beyond]
        exact ⟨addr, rfl, low, Or.inr ⟨rfl, inside, beyond⟩⟩
      · rw [if_neg beyond]
        obtain ⟨stop, tiles, bound, ends⟩ := @inductionHypothesis
          (addr + (disassemble (BitVec.ofNat 16 addr) readByte).length) (by omega) (by omega)
        exact ⟨stop, ⟨placed_rangeEntry (by omega), tiles⟩, bound, ends⟩
    · rw [sweepFrom_past (by omega)]
      exact ⟨addr, rfl, low, Or.inl ⟨rfl, by omega⟩⟩

/-- Instructions that tile a part of the range are what the loop starts with. -/
theorem sweepFrom_append {front : List DisassembledRangeInstruction} (bound : mid ≤ rangeEnd) :
    ∀ {addr : Nat}, Tiles readByte addr front mid →
      ((sweepFrom readByte rangeEnd addr).1.map (·.rangeEntry) =
          front ++ (sweepFrom readByte rangeEnd mid).1.map (·.rangeEntry)) ∧
        (sweepFrom readByte rangeEnd addr).2 = (sweepFrom readByte rangeEnd mid).2 := by
  induction front with
  | nil =>
    intro addr tiles
    have same : mid = addr := tiles
    rw [same]
    exact ⟨rfl, rfl⟩
  | cons inst front inductionHypothesis =>
    intro addr tiles
    obtain ⟨placed, rest⟩ := tiles
    have ends := rest.stop_eq
    have length : (disassemble (BitVec.ofNat 16 addr) readByte).length = inst.size := by
      rw [placed.decoded]
      rfl
    have some' := placed.nonempty
    obtain ⟨entries, cut⟩ := inductionHypothesis rest
    rw [sweepFrom_step (show addr < rangeEnd by omega)]
    dsimp only
    rw [if_neg (by omega), length]
    dsimp only
    rw [List.map_cons, ← placed.decoded, entries, cut]
    exact ⟨rfl, rfl⟩

namespace AgentApi

variable {δ : Type}

theorem linearDisassemble_eq (api : AgentApi δ) (address : Word) (size : Nat) :
    (api.linearDisassemble address size).2.instructions =
        (sweepFrom api.backend.readByte (address.toNat + size) address.toNat).1.map
          (·.rangeEntry) ∧
      (api.linearDisassemble address size).2.incompleteInstruction =
        (sweepFrom api.backend.readByte (address.toNat + size) address.toNat).2.isSome := by
  unfold sweepFrom
  rw [Nat.add_sub_cancel_left]
  exact ⟨rfl, rfl⟩

/-- The instructions of a range tile it up to its end, or up to an instruction that does not fit;
cut after any of them, the range gives the same instructions in two parts. -/
theorem linearDisassemble_tiles (api : AgentApi δ) (address : Word) (size : Nat)
    (fits : address.toNat + size ≤ 0x10000) :
    let readByte := api.backend.readByte
    let result := (api.linearDisassemble address size).2
    let stop := address.toNat + (result.instructions.map (·.size)).sum
    Tiles readByte address.toNat result.instructions stop ∧
      result.instructions.flatMap (·.bytes) = memoryBytes readByte address.toNat stop ∧
      (result.incompleteInstruction = false ∧ stop = address.toNat + size ∨
        result.incompleteInstruction = true ∧ stop < address.toNat + size ∧
          address.toNat + size - stop < getLength (readByte (BitVec.ofNat 16 stop))) ∧
      ∀ front back, result.instructions = front ++ back →
        let cut := (front.map (·.size)).sum
        let first := (api.linearDisassemble address cut).2
        let second := (api.linearDisassemble (address + BitVec.ofNat 16 cut) (size - cut)).2
        first.instructions = front ∧ first.incompleteInstruction = false ∧
          second.instructions = back ∧
          second.incompleteInstruction = result.incompleteInstruction := by
  dsimp only
  obtain ⟨entries, flag⟩ := api.linearDisassemble_eq address size
  obtain ⟨stop, tiles, bound, ends⟩ := sweepFrom_tiles api.backend.readByte fits size
    (Nat.le_add_right address.toNat size) (by omega)
  rw [← entries] at tiles
  rw [← tiles.stop_eq]
  refine ⟨tiles, tiles.flatMap_bytes, ?_, ?_⟩
  · rw [flag]
    rcases ends with ⟨whole, last⟩ | ⟨cut, below, above⟩
    · exact Or.inl ⟨by rw [whole]; rfl, last⟩
    · exact Or.inr ⟨by rw [cut]; rfl, below, by omega⟩
  · intro front back split
    rw [split] at tiles
    obtain ⟨mid, first, second⟩ := Tiles.append_iff.mp tiles
    have middle := first.stop_eq
    have last := second.stop_eq
    set cut := (front.map (·.size)).sum with cutting
    have there : mid ≤ address.toNat + size := by omega
    obtain ⟨frontEntries, frontFlag⟩ := api.linearDisassemble_eq address cut
    rw [← middle] at frontEntries frontFlag
    obtain ⟨whole, wholeFlag⟩ := sweepFrom_append (Nat.le_refl mid) first
    rw [sweepFrom_past (Nat.le_refl mid), List.map_nil, List.append_nil] at whole
    rw [sweepFrom_past (Nat.le_refl mid)] at wholeFlag
    obtain ⟨parts, partsFlag⟩ := sweepFrom_append there first
    rw [← entries, split] at parts
    have rest : (sweepFrom api.backend.readByte (address.toNat + size) mid).1.map (·.rangeEntry) =
        back := (List.append_cancel_left parts).symm
    have later :
        (api.linearDisassemble (address + BitVec.ofNat 16 cut) (size - cut)).2.instructions =
          back ∧
        (api.linearDisassemble (address + BitVec.ofNat 16 cut)
          (size - cut)).2.incompleteInstruction =
            (sweepFrom api.backend.readByte (address.toNat + size) mid).2.isSome := by
      obtain ⟨backEntries, backFlag⟩ :=
        api.linearDisassemble_eq (address + BitVec.ofNat 16 cut) (size - cut)
      rw [backEntries, backFlag]
      by_cases end' : mid = 0x10000
      · have none' : size - cut = 0 := by omega
        rw [none', Nat.add_zero, sweepFrom_past (Nat.le_refl _), ← rest,
          sweepFrom_past (show address.toNat + size ≤ mid by omega)]
        exact ⟨rfl, rfl⟩
      · have place : (address + BitVec.ofNat 16 cut).toNat = mid := by
          rw [BitVec.toNat_add, BitVec.toNat_ofNat]
          omega
        have bound : mid + (size - cut) = address.toNat + size := by omega
        rw [place, bound]
        exact ⟨rest, rfl⟩
    rw [frontEntries, frontFlag, whole, wholeFlag, later.1, later.2, flag, partsFlag]
    exact ⟨rfl, rfl, rfl, rfl⟩

/-- The last sixteen bytes of memory. -/
theorem linearDisassemble_tiles_top : ∃ stop,
    Tiles started.backend.readByte 0xfff0 (started.linearDisassemble 0xfff0 16).2.instructions
      stop :=
  ⟨_, (started.linearDisassemble_tiles 0xfff0 16 (by decide)).1⟩

end AgentApi

end VectorDebugger

import VectorDebugger.Debugger.DebugAdapter
import VectorDebugger.Machine.Banking

/-!
# A loaded program

`DebugAdapter::loadRom` clears the main memory, stores the file and starts the processor at
zero. What the processor then reads is the file, except where the RAM disk is still mapped over
`A000h..DFFFh`: the load resets the boot overlay and the interrupts but not the control port of
the disk, and the last write left in the output latch may even set it.
-/

namespace VectorDebugger

namespace Memory

/-- The bytes that `Memory::init_from_vector` leaves before it stores the data. -/
def clearedBytes (bytes : Nat → Byte) (startAddr phys : Nat) : Byte :=
  if startAddr < 65536 then (if phys < 65536 then 0 else bytes phys)
  else if startAddr ≤ phys ∧ phys < totalMemory then 0 else bytes phys

/-- The byte of the data that `Memory::init_from_vector` leaves in a physical cell: the last one
that it stores there. -/
def landed (data : List Byte) (startAddr phys : Nat) : Option Byte :=
  ((data.zipIdx.filter fun entry =>
    tobank (startAddr + entry.2) = phys ∧ phys < totalMemory).getLast?).map (·.1)

/-- Storing a list of bytes leaves the last one in each cell. -/
theorem foldl_store (startAddr phys : Nat) (entries : List (Byte × Nat)) (bytes : Nat → Byte) :
    entries.foldl (fun bytes entry =>
        let phys := tobank (startAddr + entry.2)
        if phys < totalMemory then Function.update bytes phys entry.1 else bytes) bytes phys =
      (((entries.filter fun entry =>
        tobank (startAddr + entry.2) = phys ∧ phys < totalMemory).getLast?).map (·.1)).getD
          (bytes phys) := by
  induction entries using List.reverseRecOn with
  | nil => rfl
  | append_singleton entries entry inductionHypothesis =>
    rw [List.foldl_append, List.filter_append]
    dsimp only [List.foldl_cons, List.foldl_nil]
    by_cases here : tobank (startAddr + entry.2) = phys ∧ phys < totalMemory
    · have kept : [entry].filter (fun entry =>
          tobank (startAddr + entry.2) = phys ∧ phys < totalMemory) = [entry] := by
        simp [here]
      rw [kept, here.1, if_pos here.2, Function.update_self, List.getLast?_concat]
      rfl
    · have dropped : [entry].filter (fun entry =>
          tobank (startAddr + entry.2) = phys ∧ phys < totalMemory) = [] := by
        simp [here]
      rw [dropped, List.append_nil, ← inductionHypothesis]
      split
      · rename_i inside
        apply Function.update_of_ne
        rintro rfl
        exact here ⟨rfl, inside⟩
      · rfl

/-- Every byte lands in its cell, unless another one does. -/
theorem landed_isSome {data : List Byte} {startAddr i : Nat} (stored : i < data.length)
    (inside : tobank (startAddr + i) < totalMemory) :
    (landed data startAddr (tobank (startAddr + i))).isSome = true := by
  have member : (data[i], i) ∈ data.zipIdx.filter (fun entry =>
      tobank (startAddr + entry.2) = tobank (startAddr + i) ∧
        tobank (startAddr + i) < totalMemory) := by
    rw [List.mem_filter]
    exact ⟨List.mem_zipIdx_iff_getElem?.mpr (List.getElem?_eq_getElem stored), by simp [inside]⟩
  unfold landed
  rw [Option.isSome_map, Option.isSome_iff_ne_none, Ne, List.getLast?_eq_none_iff]
  exact List.ne_nil_of_mem member

/-- What lands in a cell comes from an address of that cell. -/
theorem landed_source {data : List Byte} {startAddr phys : Nat} {value : Byte}
    (found : landed data startAddr phys = some value) :
    ∃ i, data[i]? = some value ∧ tobank (startAddr + i) = phys := by
  obtain ⟨entry, last, rfl⟩ := Option.map_eq_some_iff.mp found
  have member := List.mem_of_getLast? last
  rw [List.mem_filter] at member
  have place := of_decide_eq_true member.2
  exact ⟨entry.2, List.mem_zipIdx_iff_getElem?.mp member.1, place.1⟩

/-- An ordinary access to this address goes to the RAM disk. -/
def Hidden (mem : Memory) (addr : Nat) : Prop :=
  mem.modeMap = true ∧ 0xa000 ≤ addr ∧ addr < 0xe000

instance (mem : Memory) (addr : Nat) : Decidable (mem.Hidden addr) :=
  inferInstanceAs (Decidable (_ ∧ _ ∧ _))

/-- Where an ordinary access goes. -/
theorem bigramSelect_ordinary (mem : Memory) (addr : Nat) :
    mem.bigramSelect addr false = if mem.Hidden addr then addr + mem.pageMap else addr := by
  by_cases hidden : mem.Hidden addr
  · obtain ⟨map, low, high⟩ := hidden
    rw [if_pos ⟨map, low, high⟩]
    simp [bigramSelect, map, low, high]
  · rw [if_neg hidden]
    unfold bigramSelect
    split
    · rfl
    · rw [Bool.and_false, if_neg Bool.false_ne_true]
      split
      · rename_i window
        simp only [Bool.and_eq_true, decide_eq_true_eq] at window
        exact absurd ⟨window.1.1, window.1.2, window.2⟩ hidden
      · rfl

end Memory

namespace Io

variable {δ : Type} [Chips δ]

/-- A commit works on the memory through its control port only. -/
theorem commit_memory (io : Io δ) (memory : Memory) (bytes : Nat → Byte) (bootbytes : List Byte)
    (chips : δ) :
    (({ io with chips } : Io δ).commit { memory with bytes, bootbytes }).memory =
      { (io.commit memory).memory with bytes, bootbytes } := by
  unfold commit
  cases io.outport with
  | none => rfl
  | some write =>
    dsimp only
    unfold realoutput
    dsimp only
    split
    · split <;> rfl
    all_goals rfl

/-- A write to any other port leaves the memory alone. -/
theorem commit_output_memory (io : Io δ) (memory : Memory) {port : Byte} (w8 : Byte)
    (other : port ≠ 0x10) : ((io.output port w8).commit memory).memory = memory := by
  have away : port.toNat ≠ 0x10 := fun same => other (BitVec.eq_of_toNat_eq same)
  unfold commit output
  dsimp only
  unfold realoutput
  dsimp only
  split
  · split <;> rfl
  all_goals first | rfl | contradiction

end Io

namespace Board

variable {δ : Type} [Chips δ]

omit [Chips δ] in
/-- What `Memory::init_from_vector` stores. -/
theorem initFromVector_bytes (board : Board δ) (data : List Byte) (startAddr phys : Nat) :
    (board.initFromVector data startAddr).machine.memory.bytes phys =
      (Memory.landed data startAddr phys).getD
        (Memory.clearedBytes board.machine.memory.bytes startAddr phys) :=
  Memory.foldl_store startAddr phys data.zipIdx
    (Memory.clearedBytes board.machine.memory.bytes startAddr)

/-- Committed writes to other ports than the control port of the disk leave the processor, the
memory and the interrupt lines alone. -/
theorem writes_machine (writes : List (Byte × Byte)) (board : Board δ)
    (others : ∀ write ∈ writes, write.1 ≠ 0x10) :
    let done := writes.foldl (fun board write => (board.output write.1 write.2).commit) board
    done.machine.cpu = board.machine.cpu ∧ done.machine.memory = board.machine.memory ∧
      done.machine.inte = board.machine.inte ∧ done.machine.irq = board.machine.irq := by
  induction writes generalizing board with
  | nil => exact ⟨rfl, rfl, rfl, rfl⟩
  | cons write writes inductionHypothesis =>
    obtain ⟨cpu, memory, inte, irq⟩ := inductionHypothesis (board.output write.1 write.2).commit
      fun write member => others write (List.mem_cons_of_mem _ member)
    have first : (board.output write.1 write.2).commit.machine.memory = board.machine.memory :=
      board.machine.io.commit_output_memory board.machine.memory write.2
        (others write List.mem_cons_self)
    exact ⟨cpu, memory.trans first, inte, irq⟩

end Board

namespace DebugAdapter

variable {δ : Type} [Chips δ]

/-- The load address that `DebugAdapter::loadRom` uses. -/
def loadOrigin (path : Text) (org : Nat) : Nat :=
  if org = 0 ∧ path.contains 0x2e then getRomLoadAddress path else org

/-- What `loadRom` leaves of the machine. The mapping is that of the latched write, if there is
one. -/
structure LoadedMachine (board : Board δ) (rom : List Byte) (org : Nat) (after : Board δ) :
    Prop where
  /-- The mapping, the stored bytes and no overlay. -/
  memory : after.machine.memory =
    { (board.machine.io.commit board.machine.memory).memory with
      bytes := (board.initFromVector rom org).machine.memory.bytes, bootbytes := [] }
  /-- The processor starts at zero. -/
  pc : after.machine.cpu.pc = 0
  /-- Interrupts are off. -/
  iff : after.machine.cpu.iff = false
  /-- No `EI` is waiting. -/
  eiPending : after.machine.cpu.eiPending = 0
  /-- The processor takes no request. -/
  inte : after.machine.inte = false
  /-- There is no request. -/
  irq : after.machine.irq = false

/-- The writes of a load leave the control port of the disk alone. -/
theorem bootInit_ports : ∀ write ∈ bootInit, write.1 ≠ 0x10 := by
  have ports : bootInit.all (fun write => write.1 != 0x10) = true := by decide
  intro write listed
  exact bne_iff_ne.mp (List.all_eq_true.mp ports write listed)

theorem loadRom_machine (target : DebugAdapter δ) (path : Text) (org : Nat)
    (loaded : (target.loadRom path org).2 = true) :
    LoadedMachine target.board (target.files path) (loadOrigin path org)
      (target.loadRom path org).1.board := by
  have found : target.files path ≠ [] := by
    intro missing
    unfold loadRom at loaded
    rw [if_pos missing] at loaded
    cases loaded
  unfold loadRom
  dsimp only
  rw [if_neg found]
  set stored := target.board.initFromVector (target.files path) (loadOrigin path org) with storedEq
  obtain ⟨cpu, memory, inte, irq⟩ := Board.writes_machine bootInit
    (((stored.reset .loadrom 0).execute 0xf3).jump 0).commit bootInit_ports
  have quiet : ((stored.reset .loadrom 0).execute 0xf3).machine.irq = false := rfl
  constructor
  · refine memory.trans ?_
    exact Io.commit_memory target.board.machine.io target.board.machine.memory _ [] _
  · exact congrArg I8080.pc cpu
  · exact congrArg I8080.iff cpu
  · exact congrArg I8080.eiPending cpu
  · exact inte
  · exact irq.trans quiet

/-- What the processor should read at an address. -/
def romByte (rom : List Byte) (org addr : Nat) : Byte :=
  if org ≤ addr then rom.getD (addr - org) 0 else 0

/-- The mapping that a load leaves: the one before it, after the latched write. -/
def mappingAfter (board : Board δ) : Memory :=
  (board.machine.io.commit board.machine.memory).memory

/-- What a load needs in order to show the program whole. Each part is vacuous in the ordinary
case, as `landsWhole_of_unmapped` states. -/
structure LandsWhole (board : Board δ) (rom : List Byte) (org : Nat) : Prop where
  /-- Bytes beyond 512 KiB, which wrap around to the bottom of the memory, agree with what
  belongs there. -/
  wrapped : ∀ addr < 0x10000, ¬ (mappingAfter board).Hidden addr → ∀ value,
    Memory.landed rom org (Memory.tobank addr) = some value → value = romByte rom org addr
  /-- An origin beyond 64 KiB clears nothing below it: the main memory was clear. -/
  beyond : 0x10000 ≤ org → ∀ addr < 0x10000, ¬ (mappingAfter board).Hidden addr →
    Memory.landed rom org (Memory.tobank addr) = none →
      board.machine.memory.bytes (Memory.tobank addr) = 0
  /-- A page of the RAM disk that stays mapped holds what belongs there. -/
  mapped : ∀ addr, (mappingAfter board).Hidden addr →
    (Memory.landed rom org (Memory.tobank (addr + (mappingAfter board).pageMap))).getD
        (Memory.clearedBytes board.machine.memory.bytes org
          (Memory.tobank (addr + (mappingAfter board).pageMap))) = romByte rom org addr

/-- The interleaving keeps the main memory in place. -/
theorem tobank_main {addr : Nat} (main : addr < 0x10000) : Memory.tobank addr < 0x10000 := by
  have block := Memory.tobank_block (show addr < 0x80000 by omega)
  rw [Nat.shiftRight_eq_div_pow, Nat.shiftRight_eq_div_pow] at block
  omega

/-- No disk in the way, an origin in the main memory and a file that ends before 512 KiB. -/
theorem landsWhole_of_unmapped {board : Board δ} {rom : List Byte} {org : Nat}
    (unmapped : (mappingAfter board).modeMap = false) (main : org < 0x10000)
    (ends : org + rom.length ≤ 0x80000) : LandsWhole board rom org := by
  refine ⟨?_, fun beyond => absurd main (by omega), ?_⟩
  · intro addr below _ value found
    obtain ⟨i, stored, cell⟩ := Memory.landed_source found
    have inside : i < rom.length := (List.getElem?_eq_some_iff.mp stored).1
    have place : org + i = addr := Memory.tobank_inj (by omega) (by omega) cell
    unfold romByte
    rw [if_pos (by omega), show addr - org = i by omega, List.getD_eq_getElem?_getD, stored]
    rfl
  · intro addr hidden
    exact absurd hidden.1 (by rw [unmapped]; exact Bool.false_ne_true)

/-- What an ordinary access reads after a load. -/
theorem loadRom_read (target : DebugAdapter δ) (path : Text) (org : Nat)
    (loaded : (target.loadRom path org).2 = true) {addr : Nat} (main : addr < 0x10000) :
    ((target.loadRom path org).1.board.machine.memory.read addr false).1 =
      (Memory.landed (target.files path) (loadOrigin path org)
          (Memory.tobank ((mappingAfter target.board).bigramSelect addr false))).getD
        (Memory.clearedBytes target.board.machine.memory.bytes (loadOrigin path org)
          (Memory.tobank ((mappingAfter target.board).bigramSelect addr false))) := by
  have after := target.loadRom_machine path org loaded
  have word : addr &&& 0xffff = addr := by
    rw [show (0xffff : Nat) = 2 ^ 16 - 1 from rfl, Nat.and_two_pow_sub_one_eq_mod]
    exact Nat.mod_eq_of_lt main
  have noOverlay : ∀ cell, ¬ cell < ([] : List Byte).length := fun cell => Nat.not_lt_zero cell
  rw [Memory.read_eq, after.memory, word, if_neg (noOverlay _)]
  exact target.board.initFromVector_bytes _ _ _

/-- A byte that no byte of the program has reached should be clear. -/
theorem romByte_of_missed {rom : List Byte} {org addr : Nat} (main : addr < 0x10000)
    (missed : Memory.landed rom org (Memory.tobank addr) = none) : romByte rom org addr = 0 := by
  unfold romByte
  split
  · rename_i above
    by_cases stored : addr - org < rom.length
    · have place : org + (addr - org) = addr := by omega
      have size : Memory.totalMemory = 0x50000 := rfl
      have cell := tobank_main main
      have hit := Memory.landed_isSome stored (by rw [place]; omega)
      rw [place, missed] at hit
      cases hit
    · rw [List.getD_eq_getElem?_getD, List.getElem?_eq_none (by omega)]
      rfl
  · rfl

/-- A debug adapter just switched on, with one file. -/
def withFile (rom : List Byte) : DebugAdapter Unit where
  board := Board.powerOn () []
  syncedBreakpoints := []
  files := fun _ => rom

end DebugAdapter

end VectorDebugger

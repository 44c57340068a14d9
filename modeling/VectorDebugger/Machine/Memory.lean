import Mathlib

/-!
# Banked memory

The machine has 64 KiB of main memory followed by a 256 KiB RAM disk. A control port
maps pages of the disk over part of the address space, separately for stack accesses,
and a boot overlay can hide the bottom of the address space from reads. The physical
array is interleaved so that the four bit planes of one screen cell form one 32-bit word.
-/

namespace VectorDebugger

/-- An 8-bit machine byte. -/
abbrev Byte := BitVec 8

/-- A 16-bit machine word or address. -/
abbrev Word := BitVec 16

/-- The low byte of a word. -/
def Word.low (word : Word) : Byte := word.setWidth 8

/-- The high byte of a word. -/
def Word.high (word : Word) : Byte := (word >>> 8).setWidth 8

/-- A word from its low and high bytes. -/
def wordOf (low high : Byte) : Word := high ++ low

@[simp] theorem low_wordOf (low high : Byte) : (wordOf low high).low = low := by
  unfold wordOf Word.low
  rw [BitVec.setWidth_append]
  simp

@[simp] theorem high_wordOf (low high : Byte) : (wordOf low high).high = high := by
  unfold wordOf Word.high
  apply BitVec.eq_of_getLsbD_eq
  intro i inRange
  rw [BitVec.getLsbD_setWidth, BitVec.getLsbD_ushiftRight, BitVec.getLsbD_append]
  simp [inRange]

/-- Words are equal when their bytes are. -/
theorem wordOf_inj {low high low' high' : Byte} :
    wordOf low high = wordOf low' high' ↔ low = low' ∧ high = high' := by
  constructor
  · intro same
    have lows := congrArg Word.low same
    have highs := congrArg Word.high same
    rw [low_wordOf, low_wordOf] at lows
    rw [high_wordOf, high_wordOf] at highs
    exact ⟨lows, highs⟩
  · rintro ⟨rfl, rfl⟩
    rfl

/-- `Memory` — the physical bytes, the RAM-disk control state and the boot overlay. -/
structure Memory where
  /-- Physical storage, indexed below `totalMemory`. -/
  bytes : Nat → Byte
  /-- Stack accesses go to the RAM disk. -/
  modeStack : Bool
  /-- Ordinary accesses to `A000h..DFFFh` go to the RAM disk. -/
  modeMap : Bool
  /-- Physical base of the mapped page. -/
  pageMap : Nat
  /-- Physical base of the stack page. -/
  pageStack : Nat
  /-- Boot overlay, empty when detached. -/
  bootbytes : List Byte

namespace Memory

/-- `TOTAL_MEMORY`. -/
def totalMemory : Nat := 64 * 1024 + 256 * 1024

/-- `Memory::Memory` — cleared storage, no mapping, no overlay. -/
def init : Memory where
  bytes := fun _ => 0
  modeStack := false
  modeMap := false
  pageMap := 0
  pageStack := 0
  bootbytes := []

/-- `Memory::control_write`. -/
def controlWrite (mem : Memory) (w8 : Byte) : Memory :=
  { mem with
    modeStack := w8 &&& 0x10 != 0
    modeMap := w8 &&& 0x20 != 0
    pageMap := ((w8 &&& 3).toNat + 1) <<< 16
    pageStack := (((w8 &&& 0xc) >>> 2).toNat + 1) <<< 16 }

/-- `Memory::bigram_select`. -/
def bigramSelect (mem : Memory) (addr : Nat) (stackrq : Bool) : Nat :=
  if !(mem.modeMap || mem.modeStack) then addr
  else if mem.modeStack && stackrq then addr + mem.pageStack
  else if mem.modeMap && decide (0xa000 ≤ addr) && decide (addr < 0xe000) then addr + mem.pageMap
  else addr

/-- `Memory::tobank`. -/
def tobank (a : Nat) : Nat :=
  (a &&& 0x78000) ||| ((a <<< 2) &&& 0x7ffc) ||| ((a >>> 13) &&& 3)

/-- `Memory::read` — the value and the physical address passed to the read callback.
A byte of the boot overlay is reported under its virtual address. -/
def read (mem : Memory) (addr : Nat) (stackrq : Bool) : Byte × Nat :=
  let bigaddr := mem.bigramSelect (addr &&& 0xffff) stackrq
  if bigaddr < mem.bootbytes.length then (mem.bootbytes.getD bigaddr 0, addr)
  else (mem.bytes (tobank bigaddr), tobank bigaddr)

/-- `Memory::peek` — the value `read` returns, without a callback. -/
def peek (mem : Memory) (addr : Nat) (stackrq : Bool) : Byte :=
  let bigaddr := mem.bigramSelect (addr &&& 0xffff) stackrq
  if bigaddr < mem.bootbytes.length then mem.bootbytes.getD bigaddr 0
  else mem.bytes (tobank bigaddr)

/-- The physical address that `Memory::write` stores to. -/
def writePhys (mem : Memory) (addr : Nat) (stackrq : Bool) : Nat :=
  tobank (mem.bigramSelect (addr &&& 0xffff) stackrq)

/-- `Memory::write`; the callback, which fires first, is recorded by the caller. -/
def write (mem : Memory) (addr : Nat) (w8 : Byte) (stackrq : Bool) : Memory :=
  { mem with bytes := Function.update mem.bytes (mem.writePhys addr stackrq) w8 }

/-- Looking at a byte returns what reading it would. -/
theorem peek_eq_read (mem : Memory) (addr : Nat) (stackrq : Bool) :
    mem.peek addr stackrq = (mem.read addr stackrq).1 := by
  unfold peek read
  dsimp only
  split <;> rfl

end Memory

end VectorDebugger

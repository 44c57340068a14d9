import VectorDebugger.Machine.Memory
import Mathlib.Data.Set.Function
import Mathlib.Order.Interval.Set.Defs
import Mathlib.Data.Nat.Bitwise

/-!
# Banking

The physical array behind the two mappings. The interleaving `tobank` permutes the fifteen low
bits of an address, so it keeps every 32 KiB block in place and never folds two addresses
together; and the pages that a control byte can select all lie inside the array. Hence what is
written through one mapping is read back through any other that selects the same cell, and
nothing else moves.
-/

namespace VectorDebugger

namespace Memory

/-- The block bits of an address. -/
theorem testBit_blockMask (i : Nat) : (0x78000).testBit i = decide (15 ≤ i ∧ i < 19) := by
  have mask : 0x78000 = (2 ^ 4 - 1) <<< 15 := rfl
  rw [mask, Nat.testBit_shiftLeft, Nat.testBit_two_pow_sub_one]
  by_cases low : 15 ≤ i
  · simp only [ge_iff_le, low, decide_true, Bool.true_and, true_and, decide_eq_decide]
    omega
  · simp [low]

/-- The bits that move up by two. -/
theorem testBit_columnMask (i : Nat) : (0x7ffc).testBit i = decide (2 ≤ i ∧ i < 15) := by
  have mask : 0x7ffc = (2 ^ 13 - 1) <<< 2 := rfl
  rw [mask, Nat.testBit_shiftLeft, Nat.testBit_two_pow_sub_one]
  by_cases low : 2 ≤ i
  · simp only [ge_iff_le, low, decide_true, Bool.true_and, true_and, decide_eq_decide]
    omega
  · simp [low]

/-- Where each bit of a physical address comes from. -/
theorem testBit_tobank (a i : Nat) :
    (tobank a).testBit i =
      if i < 2 then a.testBit (13 + i)
      else if i < 15 then a.testBit (i - 2)
      else if i < 19 then a.testBit i
      else false := by
  have plane : (3 : Nat) = 2 ^ 2 - 1 := rfl
  unfold tobank
  rw [Nat.testBit_or, Nat.testBit_or, Nat.testBit_and, Nat.testBit_and, Nat.testBit_and,
    testBit_blockMask, testBit_columnMask, plane, Nat.testBit_two_pow_sub_one,
    Nat.testBit_shiftLeft, Nat.testBit_shiftRight]
  by_cases planes : i < 2
  · have notBlock : ¬ (15 ≤ i ∧ i < 19) := by omega
    have notColumn : ¬ (2 ≤ i ∧ i < 15) := by omega
    simp [planes, notBlock, notColumn]
  · by_cases column : i < 15
    · have notBlock : ¬ (15 ≤ i ∧ i < 19) := by omega
      have two : 2 ≤ i := by omega
      simp [planes, column, notBlock, two]
    · have fifteen : 15 ≤ i := by omega
      simp [planes, column, fifteen, Bool.and_comm]

/-- The interleaving stays within its 32 KiB block. -/
theorem tobank_block {a : Nat} (below : a < 0x80000) : tobank a >>> 15 = a >>> 15 := by
  apply Nat.eq_of_testBit_eq
  intro i
  have high : ¬ 15 + i < 2 := by omega
  have block : ¬ 15 + i < 15 := by omega
  rw [Nat.testBit_shiftRight, Nat.testBit_shiftRight, testBit_tobank, if_neg high, if_neg block]
  split
  · rfl
  · rename_i beyond
    have small : a < 2 ^ (15 + i) := by
      have power : 2 ^ 19 ≤ 2 ^ (15 + i) := Nat.pow_le_pow_right (by omega) (by omega)
      omega
    exact (Nat.testBit_lt_two_pow small).symm

/-- The interleaving stays inside the array. -/
theorem tobank_lt {a : Nat} (inside : a < totalMemory) : tobank a < totalMemory := by
  have size : totalMemory = 0x50000 := rfl
  have block := tobank_block (show a < 0x80000 by omega)
  rw [Nat.shiftRight_eq_div_pow, Nat.shiftRight_eq_div_pow] at block
  omega

/-- The interleaving never folds two addresses together. -/
theorem tobank_inj {a b : Nat} (belowA : a < 0x80000) (belowB : b < 0x80000)
    (same : tobank a = tobank b) : a = b := by
  have bits : ∀ i, (tobank a).testBit i = (tobank b).testBit i := by
    intro i
    rw [same]
  apply Nat.eq_of_testBit_eq
  intro j
  by_cases column : j < 13
  · have moved := bits (j + 2)
    have notPlane : ¬ j + 2 < 2 := by omega
    have there : j + 2 < 15 := by omega
    have back : j + 2 - 2 = j := by omega
    rw [testBit_tobank, testBit_tobank, if_neg notPlane, if_neg notPlane, if_pos there,
      if_pos there, back] at moved
    exact moved
  · by_cases plane : j < 15
    · have moved := bits (j - 13)
      have there : j - 13 < 2 := by omega
      have back : 13 + (j - 13) = j := by omega
      rw [testBit_tobank, testBit_tobank, if_pos there, if_pos there, back] at moved
      exact moved
    · by_cases block : j < 19
      · have kept := bits j
        have notPlane : ¬ j < 2 := by omega
        rw [testBit_tobank, testBit_tobank, if_neg notPlane, if_neg notPlane, if_neg plane,
          if_neg plane, if_pos block, if_pos block] at kept
        exact kept
      · have power : 2 ^ 19 ≤ 2 ^ j := Nat.pow_le_pow_right (by omega) (by omega)
        rw [Nat.testBit_lt_two_pow (by omega), Nat.testBit_lt_two_pow (by omega)]

/-- The selected pages lie inside the array. -/
structure Paged (mem : Memory) : Prop where
  /-- The page of ordinary accesses. -/
  map : mem.pageMap ≤ 0x40000
  /-- The page of stack accesses. -/
  stack : mem.pageStack ≤ 0x40000

/-- One of four pages is inside the array. -/
theorem page_le (selected mask : Byte) (two : mask.toNat ≤ 3) :
    ((selected &&& mask).toNat + 1) <<< 16 ≤ 0x40000 := by
  have bound : (selected &&& mask).toNat ≤ mask.toNat := by
    rw [BitVec.toNat_and]
    exact Nat.and_le_right
  rw [Nat.shiftLeft_eq]
  omega

theorem Paged.controlWrite (mem : Memory) (w8 : Byte) : (mem.controlWrite w8).Paged := by
  refine ⟨page_le w8 3 (by decide), ?_⟩
  have moved : (w8 &&& 0xc) >>> 2 = (w8 >>> 2) &&& 3 := by
    rw [BitVec.ushiftRight_and_distrib]
    rfl
  have page := page_le (w8 >>> 2) 3 (by decide)
  rw [← moved] at page
  exact page

/-- The state after a history of control bytes. -/
def controlled (mem : Memory) (history : List Byte) : Memory := history.foldl controlWrite mem

theorem Paged.controlled {mem : Memory} (paged : mem.Paged) (history : List Byte) :
    (mem.controlled history).Paged := by
  induction history generalizing mem with
  | nil => exact paged
  | cons w8 history inductionHypothesis => exact inductionHypothesis (Paged.controlWrite mem w8)

/-- Every selected cell is inside the array. -/
theorem Paged.bigramSelect_lt {mem : Memory} (paged : mem.Paged) (addr : Nat) (stackrq : Bool) :
    mem.bigramSelect (addr &&& 0xffff) stackrq < totalMemory := by
  have word : addr &&& 0xffff < 0x10000 := Nat.and_lt_two_pow addr (show 0xffff < 2 ^ 16 by decide)
  have size : totalMemory = 0x50000 := rfl
  have map := paged.map
  have stack := paged.stack
  unfold bigramSelect
  split
  · omega
  · split
    · omega
    · split <;> omega

/-- What a read returns: the overlay where it covers the cell, the array elsewhere. -/
theorem read_eq (mem : Memory) (addr : Nat) (stackrq : Bool) :
    (mem.read addr stackrq).1 =
      if mem.bigramSelect (addr &&& 0xffff) stackrq < mem.bootbytes.length then
        mem.bootbytes.getD (mem.bigramSelect (addr &&& 0xffff) stackrq) 0
      else mem.bytes (tobank (mem.bigramSelect (addr &&& 0xffff) stackrq)) := by
  unfold read
  dsimp only
  split <;> rfl

/-- What is read after a write. -/
theorem Paged.read_write {mem : Memory} (paged : mem.Paged) (a b : Nat) (s t : Bool) (v : Byte) :
    ((mem.write a v s).read b t).1 =
      if mem.bigramSelect (b &&& 0xffff) t < mem.bootbytes.length then
        mem.bootbytes.getD (mem.bigramSelect (b &&& 0xffff) t) 0
      else if mem.bigramSelect (a &&& 0xffff) s = mem.bigramSelect (b &&& 0xffff) t then v
      else (mem.read b t).1 := by
  have size : totalMemory = 0x50000 := rfl
  have insideA := paged.bigramSelect_lt a s
  have insideB := paged.bigramSelect_lt b t
  have select : (mem.write a v s).bigramSelect = mem.bigramSelect := rfl
  have overlay : (mem.write a v s).bootbytes = mem.bootbytes := rfl
  have stored : (mem.write a v s).bytes =
      Function.update mem.bytes (tobank (mem.bigramSelect (a &&& 0xffff) s)) v := rfl
  rw [read_eq, read_eq, select, overlay, stored]
  by_cases covered : mem.bigramSelect (b &&& 0xffff) t < mem.bootbytes.length
  · rw [if_pos covered, if_pos covered]
  · rw [if_neg covered, if_neg covered, if_neg covered]
    by_cases same : mem.bigramSelect (a &&& 0xffff) s = mem.bigramSelect (b &&& 0xffff) t
    · rw [if_pos same, same, Function.update_self]
    · have apart : tobank (mem.bigramSelect (b &&& 0xffff) t) ≠
          tobank (mem.bigramSelect (a &&& 0xffff) s) := by
        intro folded
        exact same (tobank_inj (by omega) (by omega) folded).symm
      rw [if_neg same, Function.update_of_ne apart]

/-- Banked memory is a memory. After any history of control bytes, over any contents and any boot
overlay: a read after a write returns the written byte exactly from the cell it selects, and the
overlay byte where the overlay covers the cell; the interleaving is injective on the array and
stays inside it, as does every selected cell; and `Memory::peek` returns what `Memory::read`
would. -/
theorem banked_read_write (bytes : Nat → Byte) (bootbytes history : List Byte) :
    let mem := controlled { init with bytes, bootbytes } history
    (∀ (a b : Nat) (s t : Bool) (v : Byte),
        ((mem.write a v s).read b t).1 =
          if mem.bigramSelect (b &&& 0xffff) t < bootbytes.length then
            bootbytes.getD (mem.bigramSelect (b &&& 0xffff) t) 0
          else if mem.bigramSelect (a &&& 0xffff) s = mem.bigramSelect (b &&& 0xffff) t then v
          else (mem.read b t).1) ∧
      (Set.InjOn tobank (Set.Iio 0x50000) ∧ ∀ a < 0x50000, tobank a < totalMemory) ∧
      (∀ (a : Nat) (s : Bool), mem.bigramSelect (a &&& 0xffff) s < 0x50000) ∧
      ∀ (a : Nat) (s : Bool), mem.peek a s = (mem.read a s).1 := by
  intro mem
  have start : Paged { init with bytes, bootbytes } := ⟨Nat.zero_le _, Nat.zero_le _⟩
  have paged : mem.Paged := start.controlled history
  have overlay : ∀ (control : List Byte) (start : Memory),
      (start.controlled control).bootbytes = start.bootbytes := by
    intro control
    induction control with
    | nil => exact fun _ => rfl
    | cons w8 control inductionHypothesis =>
      exact fun start => inductionHypothesis (start.controlWrite w8)
  have covering : mem.bootbytes = bootbytes := overlay history _
  refine ⟨?_, ⟨?_, fun a inside => tobank_lt inside⟩, paged.bigramSelect_lt, peek_eq_read mem⟩
  · intro a b s t v
    have law := paged.read_write a b s t v
    rw [covering] at law
    exact law
  · intro a insideA b insideB same
    rw [Set.mem_Iio] at insideA insideB
    exact tobank_inj (by omega) (by omega) same

/-- Two pages of the disk over one address. -/
example :
    let mem := (init.controlWrite 0x21).write 0xa000 7 false
    (mem.read 0xa000 false).1 = 7 ∧ ((mem.controlWrite 0x22).read 0xa000 false).1 = 0 := by
  decide

end Memory

end VectorDebugger

import Mathlib.Data.List.Basic
import Mathlib.Data.Nat.ModEq
import Mathlib.Logic.Function.Iterate
import Mathlib.Tactic.Ring

/-!
# Checksums

CRC-32, defined bit by bit, and what a table of bytes computes of it; Adler-32, defined on numbers
without a bound.
-/

namespace VectorDebugger.Checksums

/-- A byte. -/
abbrev Byte := BitVec 8

/-! ## CRC-32 -/

/-- The generator polynomial, reflected. -/
def polynomial : BitVec 32 := 0xedb88320

/-- The register moves on by one bit. -/
def crcBit (c : BitVec 32) : BitVec 32 :=
  if c.getLsbD 0 then polynomial ^^^ (c >>> 1) else c >>> 1

/-- The register takes a byte in. -/
def crcByte (c : BitVec 32) (byte : Byte) : BitVec 32 := crcBit^[8] (c ^^^ byte.setWidth 32)

/-- CRC-32. -/
def crc32 (data : List Byte) : BitVec 32 := data.foldl crcByte 0xffffffff ^^^ 0xffffffff

theorem crcBit_xor (x y : BitVec 32) : crcBit (x ^^^ y) = crcBit x ^^^ crcBit y := by
  have once : ∀ p a b : BitVec 32, p ^^^ (a ^^^ b) = (p ^^^ a) ^^^ b := fun p a b =>
    (BitVec.xor_assoc p a b).symm
  have other : ∀ p a b : BitVec 32, p ^^^ (a ^^^ b) = a ^^^ (p ^^^ b) := fun p a b => by
    rw [← BitVec.xor_assoc, BitVec.xor_comm p a, BitVec.xor_assoc]
  have twice : ∀ p a b : BitVec 32, a ^^^ b = (p ^^^ a) ^^^ (p ^^^ b) := fun p a b => by
    rw [← other p (p ^^^ a) b, ← BitVec.xor_assoc p (p ^^^ a), ← BitVec.xor_assoc p p a,
      BitVec.xor_self, BitVec.zero_xor]
  unfold crcBit
  rw [BitVec.getLsbD_xor, BitVec.ushiftRight_xor_distrib]
  cases x.getLsbD 0 with
  | false =>
    cases y.getLsbD 0 with
    | false => rfl
    | true => exact other polynomial _ _
  | true =>
    cases y.getLsbD 0 with
    | false => exact once polynomial _ _
    | true => exact twice polynomial _ _

theorem crcBits_xor (count : Nat) (x y : BitVec 32) :
    crcBit^[count] (x ^^^ y) = crcBit^[count] x ^^^ crcBit^[count] y := by
  induction count generalizing x y with
  | zero => rfl
  | succ count inductionHypothesis =>
    rw [Function.iterate_succ_apply, crcBit_xor, inductionHypothesis]
    rfl

/-- Zeros at the low end only shift. -/
theorem crcBits_of_low (count : Nat) (x : BitVec 32) (low : ∀ i < count, x.getLsbD i = false) :
    crcBit^[count] x = x >>> count := by
  induction count generalizing x with
  | zero => exact (BitVec.ushiftRight_zero x).symm
  | succ count inductionHypothesis =>
    have first : crcBit x = x >>> 1 := by
      unfold crcBit
      rw [low 0 (Nat.succ_pos count), if_neg Bool.false_ne_true]
    rw [Function.iterate_succ_apply, first, inductionHypothesis, ← BitVec.shiftRight_add,
      Nat.add_comm]
    intro i below
    rw [BitVec.getLsbD_ushiftRight, Nat.add_comm]
    exact low (i + 1) (Nat.succ_lt_succ below)

theorem ones_getLsbD (i : Nat) : (0xff : BitVec 32).getLsbD i = decide (i < 8) := by
  have ones : (0xff : BitVec 32) = (BitVec.allOnes 8).setWidth 32 := rfl
  rw [ones, BitVec.getLsbD_setWidth, BitVec.getLsbD_allOnes]
  by_cases low : i < 8
  · simp [low, show i < 32 by omega]
  · simp [low]

/-- A byte goes through the register as its table entry, which is taken at the low byte. -/
theorem crcByte_eq_table (c : BitVec 32) (byte : Byte) :
    crcByte c byte =
      crcBit^[8] ((c ^^^ byte.setWidth 32) &&& 0xff) ^^^ (c >>> 8) := by
  unfold crcByte
  generalize sumEq : c ^^^ byte.setWidth 32 = sum
  have parts : sum = (sum &&& 0xff) ^^^ (sum &&& ~~~0xff) := by
    refine BitVec.eq_of_getLsbD_eq fun i below => ?_
    rw [BitVec.getLsbD_xor, BitVec.getLsbD_and, BitVec.getLsbD_and, BitVec.getLsbD_not,
      decide_eq_true below]
    cases sum.getLsbD i <;> cases (0xff : BitVec 32).getLsbD i <;> rfl
  have high : (sum &&& ~~~0xff) >>> 8 = c >>> 8 := by
    refine BitVec.eq_of_getLsbD_eq fun i below => ?_
    rw [BitVec.getLsbD_ushiftRight, BitVec.getLsbD_ushiftRight, BitVec.getLsbD_and,
      BitVec.getLsbD_not, ones_getLsbD, ← sumEq, BitVec.getLsbD_xor, BitVec.getLsbD_setWidth,
      BitVec.getLsbD_of_ge byte (8 + i) (by omega)]
    by_cases inside : 8 + i < 32
    · simp [inside]
    · simp [inside, BitVec.getLsbD_of_ge c (8 + i) (by omega)]
  rw [← high, ← crcBits_of_low 8 (sum &&& ~~~0xff), ← crcBits_xor, ← parts]
  intro i below
  rw [BitVec.getLsbD_and, BitVec.getLsbD_not, ones_getLsbD, decide_eq_true below]
  simp

/-! ## Adler-32 -/

/-- The modulus. -/
def modulus : Nat := 65521

/-- The two sums take a byte in. -/
def adlerByte (sums : Nat × Nat) (byte : Byte) : Nat × Nat :=
  (sums.1 + byte.toNat, sums.2 + (sums.1 + byte.toNat))

/-- Adler-32. -/
def adler32 (data : List Byte) : Nat :=
  let sums := data.foldl adlerByte (1, 0)
  (sums.2 % modulus) * 65536 + sums.1 % modulus

/-- The sums may be reduced at any time. -/
theorem adler_reduce (data : List Byte) : ∀ {sums sums' : Nat × Nat},
    sums.1 % modulus = sums'.1 % modulus → sums.2 % modulus = sums'.2 % modulus →
      (data.foldl adlerByte sums).1 % modulus = (data.foldl adlerByte sums').1 % modulus ∧
        (data.foldl adlerByte sums).2 % modulus = (data.foldl adlerByte sums').2 % modulus := by
  induction data with
  | nil => exact fun first second => ⟨first, second⟩
  | cons byte data inductionHypothesis =>
    intro sums sums' first second
    have next : (adlerByte sums byte).1 % modulus = (adlerByte sums' byte).1 % modulus :=
      Nat.ModEq.add_right byte.toNat first
    exact inductionHypothesis next (Nat.ModEq.add second next)

/-- How far the sums grow over some bytes. -/
theorem adler_bounds (data : List Byte) : ∀ (sums : Nat × Nat),
    (data.foldl adlerByte sums).1 ≤ sums.1 + 255 * data.length ∧
      2 * (data.foldl adlerByte sums).2 ≤ 2 * sums.2 + 2 * (data.length * sums.1) +
        255 * (data.length * (data.length + 1)) := by
  induction data with
  | nil => exact fun sums => ⟨le_refl _, by rw [List.foldl_nil]; omega⟩
  | cons byte data inductionHypothesis =>
    intro sums
    have small : byte.toNat ≤ 255 := Nat.le_of_lt_succ byte.isLt
    obtain ⟨first, second⟩ := inductionHypothesis (adlerByte sums byte)
    have start : (adlerByte sums byte).1 = sums.1 + byte.toNat := rfl
    have next : (adlerByte sums byte).2 = sums.2 + (sums.1 + byte.toNat) := rfl
    rw [List.foldl_cons, List.length_cons]
    rw [start] at first second
    rw [next] at second
    have product : data.length * (sums.1 + byte.toNat) ≤ data.length * (sums.1 + 255) :=
      Nat.mul_le_mul_left _ (Nat.add_le_add_left small _)
    have expand : data.length * (sums.1 + 255) = data.length * sums.1 + 255 * data.length := by
      ring
    have wide : (data.length + 1) * sums.1 = data.length * sums.1 + sums.1 := by ring
    have square : (data.length + 1) * (data.length + 1 + 1) =
        data.length * (data.length + 1) + 2 * data.length + 2 := by ring
    exact ⟨by omega, by omega⟩

end VectorDebugger.Checksums

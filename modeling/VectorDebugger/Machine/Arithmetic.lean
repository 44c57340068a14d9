import VectorDebugger.Library.CarryChain
import VectorDebugger.Machine.Cpu

/-!
# Arithmetic over several bytes

The half carry is looked up in a table and `DAA` corrects the sum of two decimal bytes by what the
flags say. A chain of `ADC` adds numbers of any length, a chain of `SBB` subtracts them, and with
`DAA` behind every `ADC` the numbers are decimal ones.
-/

namespace VectorDebugger

/-! ## Bits -/

theorem and_bit (w : Word) : (w &&& 0x0100 != 0) = decide (w.toNat / 256 % 2 = 1) := by
  have mask : (0x0100 : Word) = BitVec.twoPow 16 8 := rfl
  have bit : w.getLsbD 8 = decide (w.toNat / 256 % 2 = 1) := Nat.testBit_eq_decide_div_mod_eq
  rw [mask, BitVec.and_twoPow, bit]
  by_cases set : w.toNat / 256 % 2 = 1
  · rw [decide_eq_true set]
    rfl
  · rw [decide_eq_false set]
    rfl

theorem and_eight (b : Byte) : b &&& 0x08 = if b.toNat / 8 % 2 = 1 then 0x08 else 0 := by
  have mask : (0x08 : Byte) = BitVec.twoPow 8 3 := rfl
  have bit : b.getLsbD 3 = decide (b.toNat / 8 % 2 = 1) := Nat.testBit_eq_decide_div_mod_eq
  rw [mask, BitVec.and_twoPow, bit]
  by_cases set : b.toNat / 8 % 2 = 1
  · rw [decide_eq_true set, if_pos rfl, if_pos set]
  · rw [decide_eq_false set, if_neg Bool.false_ne_true, if_neg set]
    rfl

theorem toNat_and_fifteen (b : Byte) : (b &&& 0x0f).toNat = b.toNat % 16 := by
  rw [BitVec.toNat_and]
  exact Nat.and_two_pow_sub_one_eq_mod b.toNat 4

theorem toNat_shift_four (b : Byte) : (b >>> 4).toNat = b.toNat / 16 := by
  rw [BitVec.toNat_ushiftRight, Nat.shiftRight_eq_div_pow]

theorem toNat_low (w : Word) : w.low.toNat = w.toNat % 256 := BitVec.toNat_setWidth 8 w

/-- The table of half carries has the carry out of bit 3. -/
theorem halfCarryTable_iff {a val work : Byte} {cin : Nat} (bit : cin ≤ 1)
    (sum : work.toNat = (a.toNat + val.toNat + cin) % 256) :
    halfCarryTable (halfIndex a val work) = true ↔ 16 ≤ a.toNat % 16 + val.toNat % 16 + cin := by
  unfold halfIndex
  rw [and_eight, and_eight, and_eight]
  by_cases left : a.toNat / 8 % 2 = 1 <;> by_cases right : val.toNat / 8 % 2 = 1 <;>
    by_cases out : work.toNat / 8 % 2 = 1
  all_goals
    simp only [left, right, out, if_true, if_false]
    first
      | exact iff_of_true (by decide) (by omega)
      | exact iff_of_false (by decide) (by omega)

/-- The table for differences has no borrow into bit 3. -/
theorem subHalfCarryTable_iff {a val work : Byte} {bin : Nat} (bit : bin ≤ 1)
    (difference : work.toNat = (a.toNat + 512 - val.toNat - bin) % 256) :
    (!subHalfCarryTable (halfIndex a val work)) = true ↔
      val.toNat % 16 + bin ≤ a.toNat % 16 := by
  have small := val.isLt
  unfold halfIndex
  rw [and_eight, and_eight, and_eight]
  by_cases left : a.toNat / 8 % 2 = 1 <;> by_cases right : val.toNat / 8 % 2 = 1 <;>
    by_cases out : work.toNat / 8 % 2 = 1
  all_goals
    simp only [left, right, out, if_true, if_false]
    first
      | exact iff_of_true (by decide) (by omega)
      | exact iff_of_false (by decide) (by omega)

namespace I8080

/-! ## One byte -/

/-- `ADC` adds, and its flags are the carries out of bit 7 and bit 3. -/
theorem adc_spec (cpu : I8080) (val : Byte) :
    (cpu.adc val).a.toNat + 256 * (cpu.adc val).flags.carry.toNat =
        cpu.a.toNat + val.toNat + cpu.flags.carry.toNat ∧
      ((cpu.adc val).flags.halfCarry = true ↔
        16 ≤ cpu.a.toNat % 16 + val.toNat % 16 + cpu.flags.carry.toNat) := by
  have smallA := cpu.a.isLt
  have smallVal := val.isLt
  have smallCarry := Bool.toNat_le cpu.flags.carry
  obtain ⟨work, workEq⟩ : ∃ work : Word, work =
      cpu.a.setWidth 16 + val.setWidth 16 + if cpu.flags.carry then 1 else 0 := ⟨_, rfl⟩
  have carryIn : (if cpu.flags.carry then (1 : Word) else 0).toNat = cpu.flags.carry.toNat := by
    cases cpu.flags.carry <;> rfl
  have number : work.toNat = cpu.a.toNat + val.toNat + cpu.flags.carry.toNat := by
    rw [workEq, BitVec.toNat_add, BitVec.toNat_add, BitVec.toNat_setWidth, BitVec.toNat_setWidth,
      carryIn]
    omega
  have result : (cpu.adc val).a.toNat = work.toNat % 256 := by
    rw [← toNat_low, workEq]
    rfl
  have carry : (cpu.adc val).flags.carry = decide (work.toNat / 256 % 2 = 1) := by
    rw [← and_bit, workEq]
    rfl
  have half : (cpu.adc val).flags.halfCarry =
      halfCarryTable (halfIndex cpu.a val (cpu.adc val).a) := rfl
  refine ⟨?_, ?_⟩
  · rw [result, carry]
    by_cases more : work.toNat / 256 % 2 = 1
    · rw [decide_eq_true more, Bool.toNat_true]
      omega
    · rw [decide_eq_false more, Bool.toNat_false]
      omega
  · rw [half]
    exact halfCarryTable_iff smallCarry (by rw [result, number])

/-- `SBB` subtracts, and its flags are the borrow into bit 7 and none into bit 3. -/
theorem sbb_spec (cpu : I8080) (val : Byte) :
    (cpu.sbb val).a.toNat + val.toNat + cpu.flags.carry.toNat =
        cpu.a.toNat + 256 * (cpu.sbb val).flags.carry.toNat ∧
      ((cpu.sbb val).flags.halfCarry = true ↔
        val.toNat % 16 + cpu.flags.carry.toNat ≤ cpu.a.toNat % 16) := by
  have smallA := cpu.a.isLt
  have smallVal := val.isLt
  have smallCarry := Bool.toNat_le cpu.flags.carry
  obtain ⟨work, workEq⟩ : ∃ work : Word, work =
      cpu.a.setWidth 16 - val.setWidth 16 - if cpu.flags.carry then 1 else 0 := ⟨_, rfl⟩
  have carryIn : (if cpu.flags.carry then (1 : Word) else 0).toNat = cpu.flags.carry.toNat := by
    cases cpu.flags.carry <;> rfl
  have number : work.toNat =
      (cpu.a.toNat + 131072 - val.toNat - cpu.flags.carry.toNat) % 65536 := by
    rw [workEq, BitVec.toNat_sub, BitVec.toNat_sub, BitVec.toNat_setWidth, BitVec.toNat_setWidth,
      carryIn]
    omega
  have result : (cpu.sbb val).a.toNat = work.toNat % 256 := by
    rw [← toNat_low, workEq]
    rfl
  have carry : (cpu.sbb val).flags.carry = decide (work.toNat / 256 % 2 = 1) := by
    rw [← and_bit, workEq]
    rfl
  have half : (cpu.sbb val).flags.halfCarry =
      !subHalfCarryTable (halfIndex cpu.a val (cpu.sbb val).a) := rfl
  refine ⟨?_, ?_⟩
  · rw [result, carry]
    by_cases more : work.toNat / 256 % 2 = 1
    · rw [decide_eq_true more, Bool.toNat_true]
      omega
    · rw [decide_eq_false more, Bool.toNat_false]
      omega
  · rw [half]
    exact subHalfCarryTable_iff smallCarry (by rw [result, number]; omega)

/-- The correction of the upper digit. -/
def adjusts (cpu : I8080) : Prop :=
  cpu.flags.carry = true ∨ 9 < cpu.a.toNat / 16 ∨ (9 ≤ cpu.a.toNat / 16 ∧ 9 < cpu.a.toNat % 16)

instance (cpu : I8080) : Decidable cpu.adjusts :=
  inferInstanceAs (Decidable (_ ∨ _ ∨ _ ∧ _))

/-- `DAA` adds 6 to a digit that is none or left a carry. -/
theorem daa_spec (cpu : I8080) :
    cpu.daa.a.toNat = (cpu.a.toNat +
        (if cpu.flags.halfCarry = true ∨ 9 < cpu.a.toNat % 16 then 6 else 0) +
        if cpu.adjusts then 0x60 else 0) % 256 ∧
      cpu.daa.flags.carry = decide cpu.adjusts := by
  obtain ⟨six, sixEq⟩ : ∃ six : Byte, six =
      if cpu.flags.halfCarry || decide (cpu.a &&& 0x0f > 9) then 0x06 else 0 := ⟨_, rfl⟩
  obtain ⟨adjust, adjustEq⟩ : ∃ adjust : Bool, adjust =
      (cpu.flags.carry || decide (cpu.a >>> 4 > 9) ||
        (decide (cpu.a >>> 4 ≥ 9) && decide (cpu.a &&& 0x0f > 9))) := ⟨_, rfl⟩
  have low : cpu.a &&& 0x0f > 9 ↔ 9 < cpu.a.toNat % 16 := by
    rw [gt_iff_lt, BitVec.lt_def, toNat_and_fifteen]
    rfl
  have high : cpu.a >>> 4 > 9 ↔ 9 < cpu.a.toNat / 16 := by
    rw [gt_iff_lt, BitVec.lt_def, toNat_shift_four]
    rfl
  have high' : cpu.a >>> 4 ≥ 9 ↔ 9 ≤ cpu.a.toNat / 16 := by
    rw [ge_iff_le, BitVec.le_def, toNat_shift_four]
    rfl
  have adjusted : adjust = decide cpu.adjusts := by
    rw [adjustEq, Bool.eq_iff_iff, decide_eq_true_eq, Bool.or_eq_true, Bool.or_eq_true,
      Bool.and_eq_true, decide_eq_true_eq, decide_eq_true_eq, decide_eq_true_eq, low, high, high',
      or_assoc]
    rfl
  have sixNat : six.toNat =
      if cpu.flags.halfCarry = true ∨ 9 < cpu.a.toNat % 16 then 6 else 0 := by
    rw [sixEq]
    by_cases needed : cpu.flags.halfCarry = true ∨ 9 < cpu.a.toNat % 16
    · rw [if_pos needed, if_pos (by rw [Bool.or_eq_true, decide_eq_true_eq, low]; exact needed)]
      rfl
    · rw [if_neg needed, if_neg (by rw [Bool.or_eq_true, decide_eq_true_eq, low]; exact needed)]
      rfl
  have added : (if adjust then six ||| 0x60 else six).toNat =
      six.toNat + if cpu.adjusts then 0x60 else 0 := by
    rw [adjusted]
    have six' : six = 0x06 ∨ six = 0 := by
      rw [sixEq]
      split
      · exact Or.inl rfl
      · exact Or.inr rfl
    by_cases there : cpu.adjusts
    · rw [decide_eq_true there, if_pos rfl, if_pos there]
      rcases six' with same | same <;> rw [same] <;> rfl
    · rw [decide_eq_false there, if_neg Bool.false_ne_true, if_neg there, Nat.add_zero]
  have sum : cpu.daa.a = (cpu.add (if adjust then six ||| 0x60 else six)).a := by
    rw [adjustEq, sixEq]
    rfl
  have carry : cpu.daa.flags.carry = if adjust then true else cpu.flags.carry := by
    rw [adjustEq]
    rfl
  have smallA := cpu.a.isLt
  refine ⟨?_, ?_⟩
  · rw [sum, show (cpu.add (if adjust then six ||| 0x60 else six)).a = Word.low
      (cpu.a.setWidth 16 + (if adjust then six ||| 0x60 else six).setWidth 16) from rfl, toNat_low,
       BitVec.toNat_add, BitVec.toNat_setWidth, BitVec.toNat_setWidth, added, sixNat]
    omega
  · rw [carry, adjusted]
    by_cases there : cpu.adjusts
    · rw [decide_eq_true there]
      rfl
    · have none : cpu.flags.carry = false := by
        rw [← Bool.not_eq_true]
        exact fun set => there (Or.inl set)
      rw [decide_eq_false there, none]
      rfl

/-- A byte of two decimal digits. -/
def IsDecimal (b : Byte) : Prop := b.toNat / 16 ≤ 9 ∧ b.toNat % 16 ≤ 9

/-- The number of a byte of two decimal digits. -/
def decimalOf (b : Byte) : Nat := b.toNat / 16 * 10 + b.toNat % 16

/-- The corrections make a sum of decimal bytes decimal again. -/
theorem adjusted_sum {x y cin work out : Nat} (bit : cin ≤ 1) (left : x / 16 ≤ 9 ∧ x % 16 ≤ 9)
    (right : y / 16 ≤ 9 ∧ y % 16 ≤ 9) (small : work < 256) (bit' : out ≤ 1)
    (sum : work + 256 * out = x + y + cin) {result : Nat}
    (resultEq : result = (work + (if 16 ≤ x % 16 + y % 16 + cin ∨ 9 < work % 16 then 6 else 0) +
      if out = 1 ∨ 9 < work / 16 ∨ (9 ≤ work / 16 ∧ 9 < work % 16) then 0x60 else 0) % 256) :
    (result / 16 ≤ 9 ∧ result % 16 ≤ 9) ∧
      result / 16 * 10 + result % 16 + 100 * (if out = 1 ∨ 9 < work / 16 ∨
          (9 ≤ work / 16 ∧ 9 < work % 16) then 1 else 0) =
        x / 16 * 10 + x % 16 + (y / 16 * 10 + y % 16) + cin := by
  by_cases six : 16 ≤ x % 16 + y % 16 + cin ∨ 9 < work % 16
  · rw [if_pos six] at resultEq
    by_cases adjust : out = 1 ∨ 9 < work / 16 ∨ (9 ≤ work / 16 ∧ 9 < work % 16)
    · rw [if_pos adjust] at resultEq ⊢
      omega
    · rw [if_neg adjust] at resultEq ⊢
      omega
  · rw [if_neg six] at resultEq
    by_cases adjust : out = 1 ∨ 9 < work / 16 ∨ (9 ≤ work / 16 ∧ 9 < work % 16)
    · rw [if_pos adjust] at resultEq ⊢
      omega
    · rw [if_neg adjust] at resultEq ⊢
      omega

/-- `DAA` behind `ADC` of decimal bytes leaves their decimal sum. -/
theorem daa_adc {cpu : I8080} {val : Byte} (left : IsDecimal cpu.a) (right : IsDecimal val) :
    IsDecimal (cpu.adc val).daa.a ∧
      decimalOf (cpu.adc val).daa.a + 100 * (cpu.adc val).daa.flags.carry.toNat =
        decimalOf cpu.a + decimalOf val + cpu.flags.carry.toNat := by
  obtain ⟨sum, half⟩ := cpu.adc_spec val
  obtain ⟨result, carry⟩ := (cpu.adc val).daa_spec
  have carried : (cpu.adc val).flags.carry = true ↔ (cpu.adc val).flags.carry.toNat = 1 := by
    cases (cpu.adc val).flags.carry <;> decide
  unfold adjusts at result carry
  simp only [half, carried] at result
  have decimal := adjusted_sum (Bool.toNat_le _) left right (cpu.adc val).a.isLt
    (Bool.toNat_le _) sum result
  have carryNat : (cpu.adc val).daa.flags.carry.toNat =
      if (cpu.adc val).flags.carry.toNat = 1 ∨ 9 < (cpu.adc val).a.toNat / 16 ∨
        (9 ≤ (cpu.adc val).a.toNat / 16 ∧ 9 < (cpu.adc val).a.toNat % 16) then 1 else 0 := by
    rw [carry]
    simp only [carried]
    by_cases adjust : (cpu.adc val).flags.carry.toNat = 1 ∨ 9 < (cpu.adc val).a.toNat / 16 ∨
        (9 ≤ (cpu.adc val).a.toNat / 16 ∧ 9 < (cpu.adc val).a.toNat % 16)
    · rw [decide_eq_true adjust, if_pos adjust]
      rfl
    · rw [decide_eq_false adjust, if_neg adjust]
      rfl
  unfold IsDecimal decimalOf
  rw [carryNat]
  exact decimal

/-! ## Numbers -/

/-- A number from its bytes, the least one first. -/
def number (bytes : List Byte) : ℤ := CarryChain.value 256 (bytes.map fun b => (b.toNat : ℤ))

/-- A decimal number from its bytes, the least one first. -/
def decimalNumber (bytes : List Byte) : ℤ :=
  CarryChain.value 100 (bytes.map fun b => (decimalOf b : ℤ))

/-- An operation on a byte in the accumulator and another, for every pair of bytes in turn: what it
leaves in the accumulator each time, and the processor after the last. -/
def forBytes (operation : I8080 → Byte → I8080) : I8080 → List (Byte × Byte) → List Byte × I8080
  | cpu, [] => ([], cpu)
  | cpu, pair :: pairs =>
    let cpu := operation { cpu with a := pair.1 } pair.2
    let rest := forBytes operation cpu pairs
    (cpu.a :: rest.1, rest.2)

/-- The carry as a number. -/
def carryOf (cpu : I8080) : ℤ := cpu.flags.carry.toNat

/-- The bytes of a chain are those of the general one. -/
theorem chain_forBytes (operation : I8080 → Byte → I8080) (reading : Byte → ℤ)
    (pairs : List (Byte × Byte)) : ∀ cpu,
      CarryChain.chain (fun cpu pair => operation { cpu with a := pair.1 } pair.2)
          (fun cpu : I8080 => reading cpu.a) cpu pairs =
        ((forBytes operation cpu pairs).1.map reading, (forBytes operation cpu pairs).2) := by
  induction pairs with
  | nil => exact fun _ => rfl
  | cons pair pairs inductionHypothesis =>
    intro cpu
    unfold CarryChain.chain forBytes
    simp only [inductionHypothesis, List.map_cons]

/-- Byte by byte, `ADC` adds numbers of any length. -/
theorem adc_number (cpu : I8080) (pairs : List (Byte × Byte)) :
    number (forBytes adc cpu pairs).1 +
        256 ^ pairs.length * (forBytes adc cpu pairs).2.carryOf =
      number (pairs.map Prod.fst) + number (pairs.map Prod.snd) + cpu.carryOf := by
  have step : ∀ (cpu : I8080) (pair : Byte × Byte), True →
      ((adc { cpu with a := pair.1 } pair.2).a.toNat : ℤ) +
          256 * carryOf (adc { cpu with a := pair.1 } pair.2) =
        ((pair.1.toNat : ℤ) + pair.2.toNat) + cpu.carryOf := by
    intro cpu pair _
    have byte := (adc_spec { cpu with a := pair.1 } pair.2).1
    unfold carryOf
    exact_mod_cast byte
  have whole := @CarryChain.value_chain I8080 (Byte × Byte) 256
    (fun cpu pair => adc { cpu with a := pair.1 } pair.2) (fun cpu => (cpu.a.toNat : ℤ)) carryOf
    (fun pair => (pair.1.toNat : ℤ) + pair.2.toNat) (fun _ => True) step pairs
    (fun _ _ => trivial) cpu
  rw [chain_forBytes adc fun b => (b.toNat : ℤ), CarryChain.value_add] at whole
  unfold number
  rw [List.map_map, List.map_map]
  exact whole

/-- Byte by byte, `SBB` subtracts numbers of any length. -/
theorem sbb_number (cpu : I8080) (pairs : List (Byte × Byte)) :
    number (forBytes sbb cpu pairs).1 -
        256 ^ pairs.length * (forBytes sbb cpu pairs).2.carryOf =
      number (pairs.map Prod.fst) - number (pairs.map Prod.snd) - cpu.carryOf := by
  have step : ∀ (cpu : I8080) (pair : Byte × Byte), True →
      ((sbb { cpu with a := pair.1 } pair.2).a.toNat : ℤ) +
          256 * -carryOf (sbb { cpu with a := pair.1 } pair.2) =
        ((pair.1.toNat : ℤ) - pair.2.toNat) + -cpu.carryOf := by
    intro cpu pair _
    have byte := (sbb_spec { cpu with a := pair.1 } pair.2).1
    unfold carryOf
    zify at byte
    linarith only [byte]
  have whole := @CarryChain.value_chain I8080 (Byte × Byte) 256
    (fun cpu pair => sbb { cpu with a := pair.1 } pair.2) (fun cpu => (cpu.a.toNat : ℤ))
    (fun cpu => -carryOf cpu) (fun pair => (pair.1.toNat : ℤ) - pair.2.toNat) (fun _ => True) step
    pairs (fun _ _ => trivial) cpu
  rw [chain_forBytes sbb fun b => (b.toNat : ℤ), CarryChain.value_sub] at whole
  unfold number
  rw [List.map_map, List.map_map, sub_eq_add_neg, ← mul_neg, sub_eq_add_neg _ cpu.carryOf]
  exact whole

/-- A processor with nothing in it. -/
def blankCpu : I8080 where
  flags := { carry := false, parity := false, halfCarry := false, zero := false, sign := false }
  a := 0
  f := 0
  b := 0
  c := 0
  d := 0
  e := 0
  h := 0
  l := 0
  sp := 0
  pc := 0
  iff := false
  eiPending := 0
  cpuCycles := 0

end I8080

end VectorDebugger

import VectorDebugger.Machine.Memory

/-!
# Processor registers and arithmetic

The KR580VM80A register file and the flag arithmetic of the core's macros. Flags are held
in one cell each, as the core holds them; the packed byte `F` is a separate register that
is only brought up to date when the program status word is pushed.
-/

namespace VectorDebugger

/-- `flag_reg` — the condition cells; the three cells no instruction reads are left out. -/
structure Flags where
  /-- `C_FLAG`. -/
  carry : Bool
  /-- `P_FLAG`. -/
  parity : Bool
  /-- `H_FLAG`. -/
  halfCarry : Bool
  /-- `Z_FLAG`. -/
  zero : Bool
  /-- `S_FLAG`. -/
  sign : Bool
deriving DecidableEq, Repr

/-- `struct i8080`. -/
structure I8080 where
  /-- Condition cells. -/
  flags : Flags
  /-- Accumulator. -/
  a : Byte
  /-- Packed flag byte, `af.b.l`. -/
  f : Byte
  /-- High half of `BC`. -/
  b : Byte
  /-- Low half of `BC`. -/
  c : Byte
  /-- High half of `DE`. -/
  d : Byte
  /-- Low half of `DE`. -/
  e : Byte
  /-- High half of `HL`. -/
  h : Byte
  /-- Low half of `HL`. -/
  l : Byte
  /-- Stack pointer. -/
  sp : Word
  /-- Program counter. -/
  pc : Word
  /-- Inner interrupt enable flag. -/
  iff : Bool
  /-- Instructions left before a pending `EI` takes effect. -/
  eiPending : Nat
  /-- Processor cycles of the last instruction. -/
  cpuCycles : Nat
deriving DecidableEq, Repr

/-- Byte registers addressed by three opcode bits. -/
inductive Reg
  | b | c | d | e | h | l | a
deriving DecidableEq, Repr

/-- Register pairs addressed by two opcode bits. -/
inductive Pair
  | bc | de | hl | sp
deriving DecidableEq, Repr

/-- Accumulator operations, in opcode order. -/
inductive Alu
  | add | adc | sub | sbb | ana | xra | ora | cmp
deriving DecidableEq, Repr

/-- Branch conditions, in opcode order. -/
inductive Cond
  | nz | z | nc | c | po | pe | p | m
deriving DecidableEq, Repr

/-- Whether a condition holds of the flags. -/
def Flags.test (flags : Flags) : Cond → Bool
  | .nz => !flags.zero
  | .z => flags.zero
  | .nc => !flags.carry
  | .c => flags.carry
  | .po => !flags.parity
  | .pe => flags.parity
  | .p => !flags.sign
  | .m => flags.sign

/-- `parity_table` — true for an even number of set bits. -/
def parityTable (value : Byte) : Bool :=
  let fold4 := value ^^^ (value >>> 4)
  let fold2 := fold4 ^^^ (fold4 >>> 2)
  let fold1 := fold2 ^^^ (fold2 >>> 1)
  fold1 &&& 1 == 0

/-- `half_carry_table`. -/
def halfCarryTable (index : Nat) : Bool :=
  [false, false, true, false, true, false, true, true].getD index false

/-- `sub_half_carry_table`. -/
def subHalfCarryTable (index : Nat) : Bool :=
  [false, true, true, true, false, false, false, true].getD index false

/-- `index & 7` of the arithmetic macros: bit 3 of the accumulator, the operand and the result.
The bit-7 half of the macros' index is masked off by every use. -/
def halfIndex (a val work : Byte) : Nat :=
  (((a &&& 0x08) >>> 1) ||| ((val &&& 0x08) >>> 2) ||| ((work &&& 0x08) >>> 3)).toNat

namespace I8080

variable (cpu : I8080)

/-- Register pair as a word. -/
def bc : Word := wordOf cpu.c cpu.b

/-- Register pair as a word. -/
def de : Word := wordOf cpu.e cpu.d

/-- Register pair as a word. -/
def hl : Word := wordOf cpu.l cpu.h

/-- Read a byte register. -/
def reg : Reg → Byte
  | .b => cpu.b
  | .c => cpu.c
  | .d => cpu.d
  | .e => cpu.e
  | .h => cpu.h
  | .l => cpu.l
  | .a => cpu.a

/-- Write a byte register. -/
def setReg (value : Byte) : Reg → I8080
  | .b => { cpu with b := value }
  | .c => { cpu with c := value }
  | .d => { cpu with d := value }
  | .e => { cpu with e := value }
  | .h => { cpu with h := value }
  | .l => { cpu with l := value }
  | .a => { cpu with a := value }

/-- Read a register pair. -/
def pair : Pair → Word
  | .bc => cpu.bc
  | .de => cpu.de
  | .hl => cpu.hl
  | .sp => cpu.sp

/-- Write a register pair. -/
def setPair (value : Word) : Pair → I8080
  | .bc => { cpu with b := value.high, c := value.low }
  | .de => { cpu with d := value.high, e := value.low }
  | .hl => { cpu with h := value.high, l := value.low }
  | .sp => { cpu with sp := value }

/-- `i8080_init` — clears the condition cells and the program counter and nothing else. -/
def init : I8080 :=
  { cpu with
    flags := { carry := false, parity := false, halfCarry := false, zero := false, sign := false }
    pc := 0 }

/-- `i8080_store_flags`. -/
def storeFlags : I8080 :=
  let bit (flag : Bool) (mask byte : Byte) : Byte := if flag then byte ||| mask else byte &&& ~~~mask
  let f := bit cpu.flags.sign 0x80 cpu.f
  let f := bit cpu.flags.zero 0x40 f
  let f := bit cpu.flags.halfCarry 0x10 f
  let f := bit cpu.flags.parity 0x04 f
  let f := bit cpu.flags.carry 0x01 f
  { cpu with f := ((f ||| 0x02) &&& ~~~0x08) &&& ~~~0x20 }

/-- `i8080_retrieve_flags`. -/
def retrieveFlags : I8080 :=
  { cpu with flags :=
    { carry := cpu.f &&& 0x01 != 0
      parity := cpu.f &&& 0x04 != 0
      halfCarry := cpu.f &&& 0x10 != 0
      zero := cpu.f &&& 0x40 != 0
      sign := cpu.f &&& 0x80 != 0 } }

/-- `INR` on a value: the incremented byte and the processor with its flags. -/
def inr (value : Byte) : Byte × I8080 :=
  let next := value + 1
  (next, { cpu with flags :=
    { cpu.flags with
      sign := next &&& 0x80 != 0
      zero := next == 0
      halfCarry := next &&& 0x0f == 0
      parity := parityTable next } })

/-- `DCR` on a value: the decremented byte and the processor with its flags. -/
def dcr (value : Byte) : Byte × I8080 :=
  let next := value - 1
  (next, { cpu with flags :=
    { cpu.flags with
      sign := next &&& 0x80 != 0
      zero := next == 0
      halfCarry := !(next &&& 0x0f == 0x0f)
      parity := parityTable next } })

/-- The common tail of `ADD`, `ADC`, `SUB` and `SBB` on a 16-bit intermediate. -/
def arith (half : Nat → Bool) (val : Byte) (work16 : Word) : I8080 :=
  let result := work16.low
  { cpu with
    a := result
    flags :=
      { sign := result &&& 0x80 != 0
        zero := result == 0
        halfCarry := half (halfIndex cpu.a val result)
        parity := parityTable result
        carry := work16 &&& 0x0100 != 0 } }

/-- `ADD`. -/
def add (val : Byte) : I8080 :=
  cpu.arith halfCarryTable val (cpu.a.setWidth 16 + val.setWidth 16)

/-- `ADC`. -/
def adc (val : Byte) : I8080 :=
  cpu.arith halfCarryTable val
    (cpu.a.setWidth 16 + val.setWidth 16 + if cpu.flags.carry then 1 else 0)

/-- `SUB`. -/
def sub (val : Byte) : I8080 :=
  cpu.arith (fun index => !subHalfCarryTable index) val (cpu.a.setWidth 16 - val.setWidth 16)

/-- `SBB`. -/
def sbb (val : Byte) : I8080 :=
  cpu.arith (fun index => !subHalfCarryTable index) val
    (cpu.a.setWidth 16 - val.setWidth 16 - if cpu.flags.carry then 1 else 0)

/-- `CMP` — the flags of `SUB` with the accumulator kept. -/
def cmp (val : Byte) : I8080 :=
  { cpu with flags := (cpu.sub val).flags }

/-- The common tail of the logical macros: a result, its half carry, no carry. -/
def logic (result : Byte) (half : Bool) : I8080 :=
  { cpu with
    a := result
    flags :=
      { sign := result &&& 0x80 != 0
        zero := result == 0
        halfCarry := half
        parity := parityTable result
        carry := false } }

/-- `ANA`. -/
def ana (val : Byte) : I8080 := cpu.logic (cpu.a &&& val) ((cpu.a ||| val) &&& 0x08 != 0)

/-- `XRA`. -/
def xra (val : Byte) : I8080 := cpu.logic (cpu.a ^^^ val) false

/-- `ORA`. -/
def ora (val : Byte) : I8080 := cpu.logic (cpu.a ||| val) false

/-- One accumulator operation. -/
def alu (val : Byte) : Alu → I8080
  | .add => cpu.add val
  | .adc => cpu.adc val
  | .sub => cpu.sub val
  | .sbb => cpu.sbb val
  | .ana => cpu.ana val
  | .xra => cpu.xra val
  | .ora => cpu.ora val
  | .cmp => cpu.cmp val

/-- `DAD`. -/
def dad (val : Word) : I8080 :=
  let work32 : BitVec 32 := cpu.hl.setWidth 32 + val.setWidth 32
  let cpu' := cpu.setPair (work32.setWidth 16) .hl
  { cpu' with flags := { cpu.flags with carry := work32 &&& 0x10000 != 0 } }

/-- `rlc`. -/
def rlc : I8080 :=
  let carry := cpu.a &&& 0x80 != 0
  { cpu with a := (cpu.a <<< 1) ||| (if carry then 1 else 0), flags := { cpu.flags with carry } }

/-- `rrc`. -/
def rrc : I8080 :=
  let carry := cpu.a &&& 0x01 != 0
  { cpu with a := (cpu.a >>> 1) ||| (if carry then 0x80 else 0), flags := { cpu.flags with carry } }

/-- `ral`. -/
def ral : I8080 :=
  { cpu with
    a := (cpu.a <<< 1) ||| (if cpu.flags.carry then 1 else 0)
    flags := { cpu.flags with carry := cpu.a &&& 0x80 != 0 } }

/-- `rar`. -/
def rar : I8080 :=
  { cpu with
    a := (cpu.a >>> 1) ||| (if cpu.flags.carry then 0x80 else 0)
    flags := { cpu.flags with carry := cpu.a &&& 0x01 != 0 } }

/-- `daa`. -/
def daa : I8080 :=
  let lowDigit := cpu.a &&& 0x0f
  let highDigit := cpu.a >>> 4
  let add6 : Byte := if cpu.flags.halfCarry || decide (lowDigit > 9) then 0x06 else 0
  let adjust := cpu.flags.carry || decide (highDigit > 9) ||
    (decide (highDigit ≥ 9) && decide (lowDigit > 9))
  let cpu' := cpu.add (if adjust then add6 ||| 0x60 else add6)
  { cpu' with flags := { cpu'.flags with carry := if adjust then true else cpu.flags.carry } }

end I8080

end VectorDebugger

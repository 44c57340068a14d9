import VectorDebugger.Machine.Bus

/-!
# Instructions

The switch of `i8080_execute`, grouped by the operand fields of the opcode. `decodeTable`
lists the 256 cases in opcode order, so that each can be checked against its `case` label;
`cycles` gives the timing that each case assigns; `exec` gives its effect.
-/

namespace VectorDebugger

/-- The cases of `i8080_execute`. -/
inductive Instr
  | nop | hlt
  | lxi (rp : Pair) | stax (rp : Pair) | ldax (rp : Pair)
  | inx (rp : Pair) | dcx (rp : Pair) | dad (rp : Pair)
  | inr (r : Reg) | dcr (r : Reg) | mvi (r : Reg)
  | inrM | dcrM | mviM
  | rlc | rrc | ral | rar | daa | cma | stc | cmc
  | shld | lhld | sta | lda
  | mov (dst src : Reg) | movFromM (dst : Reg) | movToM (src : Reg)
  | alu (op : Alu) (src : Reg) | aluM (op : Alu) | aluImm (op : Alu)
  | rcc (cc : Cond) | jcc (cc : Cond) | ccc (cc : Cond)
  | ret | jmp | call | rst (n : Nat)
  | push (rp : Pair) | pop (rp : Pair) | pushPsw | popPsw
  | inPort | outPort
  | xthl | xchg | pchl | sphl | di | ei
deriving DecidableEq, Repr

/-- The cases of the switch in opcode order, sixteen to a group. -/
def decodeTable : List Instr :=
  [ -- 00
   .nop, .lxi .bc, .stax .bc, .inx .bc, .inr .b, .dcr .b, .mvi .b, .rlc,
   .nop, .dad .bc, .ldax .bc, .dcx .bc, .inr .c, .dcr .c, .mvi .c, .rrc,
   -- 10
   .nop, .lxi .de, .stax .de, .inx .de, .inr .d, .dcr .d, .mvi .d, .ral,
   .nop, .dad .de, .ldax .de, .dcx .de, .inr .e, .dcr .e, .mvi .e, .rar,
   -- 20
   .nop, .lxi .hl, .shld, .inx .hl, .inr .h, .dcr .h, .mvi .h, .daa,
   .nop, .dad .hl, .lhld, .dcx .hl, .inr .l, .dcr .l, .mvi .l, .cma,
   -- 30
   .nop, .lxi .sp, .sta, .inx .sp, .inrM, .dcrM, .mviM, .stc,
   .nop, .dad .sp, .lda, .dcx .sp, .inr .a, .dcr .a, .mvi .a, .cmc,
   -- 40
   .mov .b .b, .mov .b .c, .mov .b .d, .mov .b .e, .mov .b .h, .mov .b .l, .movFromM .b, .mov .b .a,
   .mov .c .b, .mov .c .c, .mov .c .d, .mov .c .e, .mov .c .h, .mov .c .l, .movFromM .c, .mov .c .a,
   -- 50
   .mov .d .b, .mov .d .c, .mov .d .d, .mov .d .e, .mov .d .h, .mov .d .l, .movFromM .d, .mov .d .a,
   .mov .e .b, .mov .e .c, .mov .e .d, .mov .e .e, .mov .e .h, .mov .e .l, .movFromM .e, .mov .e .a,
   -- 60
   .mov .h .b, .mov .h .c, .mov .h .d, .mov .h .e, .mov .h .h, .mov .h .l, .movFromM .h, .mov .h .a,
   .mov .l .b, .mov .l .c, .mov .l .d, .mov .l .e, .mov .l .h, .mov .l .l, .movFromM .l, .mov .l .a,
   -- 70
   .movToM .b, .movToM .c, .movToM .d, .movToM .e, .movToM .h, .movToM .l, .hlt, .movToM .a,
   .mov .a .b, .mov .a .c, .mov .a .d, .mov .a .e, .mov .a .h, .mov .a .l, .movFromM .a, .mov .a .a,
   -- 80
   .alu .add .b, .alu .add .c, .alu .add .d, .alu .add .e,
   .alu .add .h, .alu .add .l, .aluM .add, .alu .add .a,
   .alu .adc .b, .alu .adc .c, .alu .adc .d, .alu .adc .e,
   .alu .adc .h, .alu .adc .l, .aluM .adc, .alu .adc .a,
   -- 90
   .alu .sub .b, .alu .sub .c, .alu .sub .d, .alu .sub .e,
   .alu .sub .h, .alu .sub .l, .aluM .sub, .alu .sub .a,
   .alu .sbb .b, .alu .sbb .c, .alu .sbb .d, .alu .sbb .e,
   .alu .sbb .h, .alu .sbb .l, .aluM .sbb, .alu .sbb .a,
   -- A0
   .alu .ana .b, .alu .ana .c, .alu .ana .d, .alu .ana .e,
   .alu .ana .h, .alu .ana .l, .aluM .ana, .alu .ana .a,
   .alu .xra .b, .alu .xra .c, .alu .xra .d, .alu .xra .e,
   .alu .xra .h, .alu .xra .l, .aluM .xra, .alu .xra .a,
   -- B0
   .alu .ora .b, .alu .ora .c, .alu .ora .d, .alu .ora .e,
   .alu .ora .h, .alu .ora .l, .aluM .ora, .alu .ora .a,
   .alu .cmp .b, .alu .cmp .c, .alu .cmp .d, .alu .cmp .e,
   .alu .cmp .h, .alu .cmp .l, .aluM .cmp, .alu .cmp .a,
   -- C0
   .rcc .nz, .pop .bc, .jcc .nz, .jmp, .ccc .nz, .push .bc, .aluImm .add, .rst 0,
   .rcc .z, .ret, .jcc .z, .jmp, .ccc .z, .call, .aluImm .adc, .rst 1,
   -- D0
   .rcc .nc, .pop .de, .jcc .nc, .outPort, .ccc .nc, .push .de, .aluImm .sub, .rst 2,
   .rcc .c, .ret, .jcc .c, .inPort, .ccc .c, .call, .aluImm .sbb, .rst 3,
   -- E0
   .rcc .po, .pop .hl, .jcc .po, .xthl, .ccc .po, .push .hl, .aluImm .ana, .rst 4,
   .rcc .pe, .pchl, .jcc .pe, .xchg, .ccc .pe, .call, .aluImm .xra, .rst 5,
   -- F0
   .rcc .p, .popPsw, .jcc .p, .di, .ccc .p, .pushPsw, .aluImm .ora, .rst 6,
   .rcc .m, .sphl, .jcc .m, .ei, .ccc .m, .call, .aluImm .cmp, .rst 7]

/-- The case an opcode selects. -/
def decode (opcode : Byte) : Instr := decodeTable.getD opcode.toNat .nop

/-- What holds of every row of a table of all opcodes holds of what an opcode selects. -/
theorem forall_getD {α : Type} {table : List α} {default : α} (whole : table.length = 256)
    {P : Byte → α → Prop} (rows : ∀ row ∈ table.zipIdx, P (BitVec.ofNat 8 row.2) row.1)
    (opcode : Byte) : P opcode (table.getD opcode.toNat default) := by
  have inside : opcode.toNat < table.length := whole ▸ opcode.isLt
  have row := rows (table[opcode.toNat], opcode.toNat)
    (List.mem_zipIdx_iff_getElem?.mpr (List.getElem?_eq_getElem inside))
  have entry : table.getD opcode.toNat default = table[opcode.toNat] := by
    rw [List.getD_eq_getElem?_getD, List.getElem?_eq_getElem inside, Option.getD_some]
  rwa [BitVec.ofNat_toNat, BitVec.setWidth_eq, ← entry] at row

/-- Two tables are looked up in together. -/
theorem getD_zip {α β : Type} {first : List α} {second : List β}
    (same : first.length = second.length) (default : α) (other : β) (k : Nat) :
    (first.zip second).getD k (default, other) = (first.getD k default, second.getD k other) := by
  rw [List.getD_eq_getElem?_getD, List.getD_eq_getElem?_getD, List.getD_eq_getElem?_getD]
  by_cases inside : k < first.length
  · have other : k < second.length := same ▸ inside
    have both : k < (first.zip second).length := by
      rw [List.length_zip]
      omega
    rw [List.getElem?_eq_getElem inside, List.getElem?_eq_getElem other,
      List.getElem?_eq_getElem both, List.getElem_zip]
    rfl
  · have none' : (first.zip second).length ≤ k := by
      rw [List.length_zip]
      omega
    rw [List.getElem?_eq_none none', List.getElem?_eq_none (Nat.le_of_not_lt inside),
      List.getElem?_eq_none (same ▸ Nat.le_of_not_lt inside)]
    rfl

set_option maxRecDepth 4000 in
theorem decodeTable_length : decodeTable.length = 256 := by decide

/-- What holds of every case of the switch holds of every opcode. -/
theorem forall_decode {P : Byte → Instr → Prop}
    (rows : ∀ row ∈ decodeTable.zipIdx, P (BitVec.ofNat 8 row.2) row.1) (opcode : Byte) :
    P opcode (decode opcode) :=
  forall_getD decodeTable_length rows opcode

/-- The timing a case assigns: `cpu_cycles` and `v_cycles`. -/
def Instr.cycles (flags : Flags) : Instr → Nat × Nat
  | .nop | .rlc | .rrc | .ral | .rar | .daa | .cma | .stc | .cmc => (4, 4)
  | .hlt | .xchg | .di | .ei | .alu _ _ => (4, 4)
  | .inx _ | .dcx _ | .inr _ | .dcr _ | .mov _ _ | .pchl | .sphl => (5, 8)
  | .stax _ | .ldax _ | .mvi _ | .movFromM _ | .movToM _ | .aluM _ | .aluImm _ => (7, 8)
  | .lxi _ | .dad _ | .inrM | .dcrM | .mviM | .jmp | .jcc _ => (10, 12)
  | .ret | .popPsw | .inPort | .outPort => (10, 12)
  | .pop _ => (11, 12)
  | .push _ | .pushPsw | .rst _ => (11, 16)
  | .sta | .lda => (13, 16)
  | .shld | .lhld => (16, 20)
  | .xthl => (18, 24)
  | .call => (17, 24)
  | .rcc cc => if flags.test cc then (11, 16) else (5, 8)
  | .ccc cc => if flags.test cc then (17, 24) else (11, 16)

namespace Bus

variable {δ : Type} [Chips δ]

/-- The body of one case of `i8080_execute`. -/
def exec (bus : Bus δ) : Instr → Bus δ
  | .nop => bus
  | .hlt => bus.jump (bus.cpu.pc - 1)
  | .lxi rp =>
    let found := bus.fetchWord
    (found.2.setCpu (found.2.cpu.setPair found.1 rp)).skipWord
  | .stax rp => bus.wrByte (bus.cpu.pair rp) bus.cpu.a
  | .ldax rp =>
    let found := bus.rdByte (bus.cpu.pair rp)
    found.2.setCpu { found.2.cpu with a := found.1 }
  | .inx rp => bus.setCpu (bus.cpu.setPair (bus.cpu.pair rp + 1) rp)
  | .dcx rp => bus.setCpu (bus.cpu.setPair (bus.cpu.pair rp - 1) rp)
  | .dad rp => bus.setCpu (bus.cpu.dad (bus.cpu.pair rp))
  | .inr r =>
    let next := bus.cpu.inr (bus.cpu.reg r)
    bus.setCpu (next.2.setReg next.1 r)
  | .dcr r =>
    let next := bus.cpu.dcr (bus.cpu.reg r)
    bus.setCpu (next.2.setReg next.1 r)
  | .mvi r =>
    let found := bus.fetchByte
    found.2.setCpu (found.2.cpu.setReg found.1 r)
  | .inrM =>
    let found := bus.rdByte bus.cpu.hl
    let next := found.2.cpu.inr found.1
    (found.2.setCpu next.2).wrByte next.2.hl next.1
  | .dcrM =>
    -- the source reads the operand twice
    let first := bus.rdByte bus.cpu.hl
    let found := first.2.rdByte first.2.cpu.hl
    let next := found.2.cpu.dcr found.1
    (found.2.setCpu next.2).wrByte next.2.hl next.1
  | .mviM =>
    -- the source reads the destination before it fetches the operand
    let first := bus.rdByte bus.cpu.hl
    let found := first.2.fetchByte
    found.2.wrByte found.2.cpu.hl found.1
  | .rlc => bus.setCpu bus.cpu.rlc
  | .rrc => bus.setCpu bus.cpu.rrc
  | .ral => bus.setCpu bus.cpu.ral
  | .rar => bus.setCpu bus.cpu.rar
  | .daa => bus.setCpu bus.cpu.daa
  | .cma => bus.setCpu { bus.cpu with a := bus.cpu.a ^^^ 0xff }
  | .stc => bus.setCpu { bus.cpu with flags := { bus.cpu.flags with carry := true } }
  | .cmc => bus.setCpu { bus.cpu with flags := { bus.cpu.flags with carry := !bus.cpu.flags.carry } }
  | .shld =>
    let target := bus.fetchWord
    (target.2.wrWord target.1 target.2.cpu.hl).skipWord
  | .lhld =>
    let target := bus.fetchWord
    let found := target.2.rdWord target.1
    (found.2.setCpu (found.2.cpu.setPair found.1 .hl)).skipWord
  | .sta =>
    let target := bus.fetchWord
    (target.2.wrByte target.1 target.2.cpu.a).skipWord
  | .lda =>
    let target := bus.fetchWord
    let found := target.2.rdByte target.1
    (found.2.setCpu { found.2.cpu with a := found.1 }).skipWord
  | .mov dst src => bus.setCpu (bus.cpu.setReg (bus.cpu.reg src) dst)
  | .movFromM dst =>
    let found := bus.rdByte bus.cpu.hl
    found.2.setCpu (found.2.cpu.setReg found.1 dst)
  | .movToM src => bus.wrByte bus.cpu.hl (bus.cpu.reg src)
  | .alu op src => bus.setCpu (bus.cpu.alu (bus.cpu.reg src) op)
  | .aluM op =>
    let found := bus.rdByte bus.cpu.hl
    found.2.setCpu (found.2.cpu.alu found.1 op)
  | .aluImm op =>
    let found := bus.fetchByte
    found.2.setCpu (found.2.cpu.alu found.1 op)
  | .rcc cc =>
    if bus.cpu.flags.test cc then
      let found := bus.pop
      found.2.jump found.1
    else bus
  | .jcc cc =>
    if bus.cpu.flags.test cc then
      let target := bus.fetchWord
      target.2.jump target.1
    else bus.skipWord
  | .ccc cc => if bus.cpu.flags.test cc then bus.call else bus.skipWord
  | .ret =>
    let found := bus.pop
    found.2.jump found.1
  | .jmp =>
    let target := bus.fetchWord
    target.2.jump target.1
  | .call => bus.call
  | .rst n => (bus.push bus.cpu.pc).jump (BitVec.ofNat 16 (8 * n))
  | .push rp => bus.push (bus.cpu.pair rp)
  | .pop rp =>
    let found := bus.pop
    found.2.setCpu (found.2.cpu.setPair found.1 rp)
  | .pushPsw =>
    let stored := bus.setCpu bus.cpu.storeFlags
    stored.push (wordOf stored.cpu.f stored.cpu.a)
  | .popPsw =>
    let found := bus.pop
    found.2.setCpu { found.2.cpu with a := found.1.high, f := found.1.low }.retrieveFlags
  | .inPort =>
    let port := bus.fetchByte
    let found := port.2.ioInput port.1
    found.2.setCpu { found.2.cpu with a := found.1 }
  | .outPort =>
    let port := bus.fetchByte
    port.2.ioOutput port.1 port.2.cpu.a
  | .xthl =>
    let found := bus.readWordAt bus.cpu.sp true false
    let written := found.2.writeWordAt found.2.cpu.sp found.2.cpu.hl true
    written.setCpu (written.cpu.setPair found.1 .hl)
  | .xchg =>
    bus.setCpu ((bus.cpu.setPair bus.cpu.hl .de).setPair bus.cpu.de .hl)
  | .pchl => bus.jump bus.cpu.hl
  | .sphl => bus.setCpu { bus.cpu with sp := bus.cpu.hl }
  | .di => (bus.setCpu { bus.cpu with iff := false, eiPending := 0 }).interrupt false
  | .ei =>
    -- INTE goes up at once, the acknowledge is held off until the instruction after the next
    let raised := (bus.setCpu { bus.cpu with iff := false }).interrupt true
    raised.setCpu { raised.cpu with eiPending := 2 }

/-- The `EI_PENDING` countdown at the end of `i8080_execute`. -/
def countdown (bus : Bus δ) : Bus δ :=
  if bus.cpu.eiPending = 0 then bus
  else
    let lowered := bus.setCpu { bus.cpu with eiPending := bus.cpu.eiPending - 1 }
    if lowered.cpu.eiPending = 0 then
      (lowered.setCpu { lowered.cpu with iff := true }).interrupt true
    else lowered

/-- `i8080_execute` — the Vector-06C cycles and the bus after the instruction. -/
def i8080Execute (bus : Bus δ) (opcode : Byte) : Nat × Bus δ :=
  let instr := decode opcode
  let timing := instr.cycles bus.cpu.flags
  let done := (bus.exec instr).countdown
  (timing.2, done.setCpu { done.cpu with cpuCycles := timing.1 })

/-- `i8080_instruction` — the opcode, the Vector-06C cycles and the bus after it. -/
def i8080Instruction (bus : Bus δ) : Byte × Nat × Bus δ :=
  let opcode := bus.fetchByte
  (opcode.1, opcode.2.i8080Execute opcode.1)

end Bus

namespace Machine

variable {δ : Type} [Chips δ]

/-- A machine with no callback fired yet. -/
def bus (machine : Machine δ) : Bus δ := { machine with events := [] }

/-- The opcode at the program counter, as the processor will read it. -/
def opcode (machine : Machine δ) : Byte :=
  (machine.memory.read machine.cpu.pc.toNat false).1

/-- The machine after one instruction. -/
def next (machine : Machine δ) : Machine δ := machine.bus.i8080Instruction.2.2.toMachine

/-- The callbacks that one instruction fires, in order. -/
def events (machine : Machine δ) : List BusEvent := machine.bus.i8080Instruction.2.2.events

end Machine

end VectorDebugger

import Mathlib.Tactic.IntervalCases
import VectorDebugger.Debugger.DebugAdapter
import VectorDebugger.Machine.Accesses

/-!
# The flags the debugger shows

The core keeps its condition flags in cells of their own, and a packed flag byte beside them that
only `PUSH PSW` and `POP PSW` keep in step. The debugger reads and writes the packed byte. Which
steps keep what it shows equal to the flags that conditional instructions test is settled for
one step, and from it for any sequence of instructions and debugger writes.
-/

namespace VectorDebugger

namespace Flags

/-- The flags as a byte: sign, zero, half carry, parity, one, carry. -/
def pack (flags : Flags) : Byte :=
  (if flags.sign then 0x80 else 0) ||| (if flags.zero then 0x40 else 0) |||
    (if flags.halfCarry then 0x10 else 0) ||| (if flags.parity then 0x04 else 0) ||| 0x02 |||
    (if flags.carry then 0x01 else 0)

/-- The flags in a byte. -/
def unpack (f : Byte) : Flags where
  carry := f &&& 0x01 != 0
  parity := f &&& 0x04 != 0
  halfCarry := f &&& 0x10 != 0
  zero := f &&& 0x40 != 0
  sign := f &&& 0x80 != 0

/-- All flags clear, as `i8080_init` leaves them. -/
def cleared : Flags where
  carry := false
  parity := false
  halfCarry := false
  zero := false
  sign := false

theorem unpack_pack (flags : Flags) : unpack flags.pack = flags := by
  obtain ⟨carry, parity, halfCarry, zero, sign⟩ := flags
  cases carry <;> cases parity <;> cases halfCarry <;> cases zero <;> cases sign <;> rfl

theorem pack_inj {flags other : Flags} : flags.pack = other.pack ↔ flags = other := by
  constructor
  · intro same
    rw [← flags.unpack_pack, same, other.unpack_pack]
  · rintro rfl
    rfl

/-- A bit is set or cleared by a mask. -/
theorem or_mask (flag : Bool) (mask byte : Byte) :
    (if flag then byte ||| mask else byte &&& ~~~mask) =
      byte &&& ~~~mask ||| if flag then mask else 0 := by
  cases flag with
  | false => exact (BitVec.or_zero).symm
  | true =>
    apply BitVec.eq_of_getLsbD_eq
    intro k bound
    simp only [if_true, BitVec.getLsbD_or, BitVec.getLsbD_and, BitVec.getLsbD_not, bound,
      decide_true, Bool.true_and]
    cases byte.getLsbD k <;> cases mask.getLsbD k <;> rfl

theorem getLsbD_flag (flag : Bool) (mask : Byte) (k : Nat) :
    (if flag then mask else 0).getLsbD k = (flag && mask.getLsbD k) := by
  cases flag with
  | false => exact BitVec.getLsbD_zero
  | true => rfl

/-- A byte is the packing of its flags when its other three bits are the fixed ones. -/
theorem pack_unpack (f : Byte) : (unpack f).pack = f ↔ f &&& 0x2a = 0x02 := by
  revert f
  decide

end Flags

namespace I8080

/-- `PUSH PSW` packs the flags whatever the packed byte was. -/
theorem storeFlags_f (cpu : I8080) : cpu.storeFlags.f = cpu.flags.pack := by
  unfold storeFlags Flags.pack
  dsimp only
  simp only [Flags.or_mask]
  apply BitVec.eq_of_getLsbD_eq
  intro k bound
  simp only [BitVec.getLsbD_or, BitVec.getLsbD_and, BitVec.getLsbD_not, Flags.getLsbD_flag, bound,
    decide_true, Bool.true_and]
  interval_cases k <;> simp

end I8080

namespace Machine

variable {δ : Type} [Chips δ]

/-- The byte that `POP PSW` takes for the flags. -/
def poppedFlags (machine : Machine δ) : Byte :=
  (machine.memory.read machine.cpu.sp.toNat true).1

/-- The flags a case gives, from the machine right after the opcode fetch. -/
def flagsGiven (machine : Machine δ) : Instr → Flags
  | .inr r => (machine.cpu.inr (machine.cpu.reg r)).2.flags
  | .dcr r => (machine.cpu.dcr (machine.cpu.reg r)).2.flags
  | .inrM => (machine.cpu.inr (machine.memory.read machine.cpu.hl.toNat false).1).2.flags
  | .dcrM => (machine.cpu.dcr (machine.memory.read machine.cpu.hl.toNat false).1).2.flags
  | .dad rp => (machine.cpu.dad (machine.cpu.pair rp)).flags
  | .rlc => machine.cpu.rlc.flags
  | .rrc => machine.cpu.rrc.flags
  | .ral => machine.cpu.ral.flags
  | .rar => machine.cpu.rar.flags
  | .daa => machine.cpu.daa.flags
  | .stc => { machine.cpu.flags with carry := true }
  | .cmc => { machine.cpu.flags with carry := !machine.cpu.flags.carry }
  | .alu op src => (machine.cpu.alu (machine.cpu.reg src) op).flags
  | .aluM op => (machine.cpu.alu (machine.memory.read machine.cpu.hl.toNat false).1 op).flags
  | .aluImm op => (machine.cpu.alu (machine.memory.read machine.cpu.pc.toNat false).1 op).flags
  | .popPsw => Flags.unpack machine.poppedFlags
  | _ => machine.cpu.flags

/-- The packed byte a case leaves. -/
def packedGiven (machine : Machine δ) : Instr → Byte
  | .pushPsw => machine.cpu.flags.pack
  | .popPsw => machine.poppedFlags
  | _ => machine.cpu.f

end Machine

namespace Bus

variable {δ : Type} [Chips δ]

theorem exec_flags (bus : Bus δ) (instr : Instr) :
    (bus.exec instr).cpu.flags = bus.flagsGiven instr := by
  cases instr with
  | rcc cc | jcc cc | ccc cc =>
    unfold exec
    dsimp only
    split <;> rfl
  | popPsw =>
    change Flags.unpack (Word.low (wordOf _ _)) = _
    rw [low_wordOf]
    rfl
  | mvi r | inr r | dcr r | movFromM r => cases r <;> rfl
  | mov dst src => cases dst <;> rfl
  | lxi rp | inx rp | dcx rp | pop rp => cases rp <;> rfl
  | alu op src => rfl
  | aluM op | aluImm op => cases op <;> rfl
  | _ => rfl

theorem exec_f (bus : Bus δ) (instr : Instr) :
    (bus.exec instr).cpu.f = bus.packedGiven instr := by
  cases instr with
  | rcc cc | jcc cc | ccc cc =>
    unfold exec
    dsimp only
    split <;> rfl
  | pushPsw => exact bus.cpu.storeFlags_f
  | popPsw =>
    change Word.low (wordOf _ _) = _
    rw [low_wordOf]
    rfl
  | mvi r | inr r | dcr r | movFromM r => cases r <;> rfl
  | mov dst src => cases dst <;> rfl
  | lxi rp | inx rp | dcx rp | pop rp => cases rp <;> rfl
  | alu op src => cases op <;> rfl
  | aluM op | aluImm op => cases op <;> rfl
  | _ => rfl

end Bus

namespace Machine

variable {δ : Type} [Chips δ]

/-- The flags and the packed byte after an instruction. -/
theorem next_flags (machine : Machine δ) :
    machine.next.cpu.flags = machine.fetched.flagsGiven (decode machine.opcode) ∧
      machine.next.cpu.f = machine.fetched.packedGiven (decode machine.opcode) := by
  obtain ⟨⟨iff', eiPending, cpuCycles, cpu⟩, -, -⟩ := machine.next_executed
  rw [cpu]
  exact ⟨machine.bus.fetchByte.2.exec_flags _, machine.bus.fetchByte.2.exec_f _⟩

/-- The next instruction keeps a packed byte in step with the flags: it is `PUSH PSW`, it is
`POP PSW` of a byte with the fixed bits in place, or it leaves the flags as they are. -/
def KeepsFlags (machine : Machine δ) : Prop :=
  match decode machine.opcode with
  | .pushPsw => True
  | .popPsw => machine.poppedFlags &&& 0x2a = 0x02
  | instr => machine.fetched.flagsGiven instr = machine.cpu.flags

/-- From a packed byte in step, an instruction leaves one in step exactly when it keeps it. -/
theorem next_packed_iff (machine : Machine δ) (shown : machine.cpu.f = machine.cpu.flags.pack) :
    machine.next.cpu.f = machine.next.cpu.flags.pack ↔ machine.KeepsFlags := by
  obtain ⟨flags, packed⟩ := machine.next_flags
  have before : machine.fetched.cpu.f = machine.cpu.flags.pack := shown
  unfold KeepsFlags
  rw [flags, packed]
  cases instr : decode machine.opcode with
  | pushPsw => exact iff_of_true rfl trivial
  | popPsw => exact eq_comm.trans (Flags.pack_unpack machine.poppedFlags)
  | _ =>
    unfold packedGiven
    rw [before, Flags.pack_inj]
    exact eq_comm

end Machine

namespace Board

/-- The 26 bytes that `Board::read_registers` prints, two digits each. -/
def readRegisters {δ : Type} (board : Board δ) : List Byte :=
  let cpu := board.machine.cpu
  [cpu.a, cpu.f, cpu.c, cpu.b, cpu.e, cpu.d, cpu.l, cpu.h, 0, 0, 0, 0,
    cpu.sp.low, cpu.sp.high, 0, 0, 0, 0, 0, 0, 0, 0, 0, 0, cpu.pc.low, cpu.pc.high]

/-- `Board::write_registers`. -/
def writeRegisters {δ : Type} (board : Board δ) (regs : Nat → Byte) : Board δ :=
  { board with
    machine := { board.machine with
      cpu := { board.machine.cpu with
        a := regs 0, f := regs 1, c := regs 2, b := regs 3, e := regs 4, d := regs 5
        l := regs 6, h := regs 7, sp := wordOf (regs 12) (regs 13)
        pc := wordOf (regs 24) (regs 25) } } }

end Board

/-- What a processor under the debugger goes through. -/
inductive ProcessorStep (δ : Type)
  /-- `single_step`. -/
  | instruction
  /-- `check_interrupt`. -/
  | interrupt
  /-- `DebugAdapter::writeCpuRegister`. -/
  | writeCpuRegister (reg : RegisterId) (value : Word)
  /-- `Board::write_registers`. -/
  | writeRegisters (regs : Nat → Byte)
  /-- `DebugAdapter::reset`. -/
  | reset (attachBoot : Bool)
  /-- Anything that leaves the processor alone: the rest of the target is as in `other`. -/
  | elsewhere (other : DebugAdapter δ)

namespace DebugAdapter

variable {δ : Type} [Chips δ]

/-- `getCpuState().flags`, which is `i8080_regs_f`. -/
def flags (target : DebugAdapter δ) : Byte := target.board.machine.cpu.f

/-- The flags that the next conditional instruction tests. -/
def tested (target : DebugAdapter δ) : Flags := target.board.machine.cpu.flags

/-- Both readers show the flags that the processor uses. -/
def FlagsShown (target : DebugAdapter δ) : Prop :=
  target.flags = target.tested.pack ∧
    target.board.readRegisters.getD 1 0 = target.tested.pack

/-- The target after one step. -/
def act (target : DebugAdapter δ) : ProcessorStep δ → DebugAdapter δ
  | .instruction => target.stepInstruction
  | .interrupt => { target with board := target.board.checkInterrupt }
  | .writeCpuRegister reg value => target.writeCpuRegister reg value
  | .writeRegisters regs => { target with board := target.board.writeRegisters regs }
  | .reset attachBoot => target.reset attachBoot
  | .elsewhere other =>
    { other with
      board := { other.board with
        machine := { other.board.machine with cpu := target.board.machine.cpu } } }

end DebugAdapter

namespace ProcessorStep

variable {δ : Type} [Chips δ]

/-- The flag byte that a step writes. -/
def written : ProcessorStep δ → Option Byte
  | .writeCpuRegister .af value => some value.low
  | .writeRegisters regs => some (regs 1)
  | _ => none

/-- A written flag byte is read back, and its flags are the ones tested. -/
def Taken (step : ProcessorStep δ) (after : DebugAdapter δ) : Prop :=
  ∀ f, step.written = some f → after.flags = f ∧ after.tested = Flags.unpack f

/-- What a step must do to keep the flags shown. A debugger write must bring the flags that are
there already, and a reset must find them clear. -/
def Meets (target : DebugAdapter δ) : ProcessorStep δ → Prop
  | .instruction => target.board.machine.KeepsFlags
  | .writeCpuRegister .af value => value.low = target.tested.pack
  | .writeRegisters regs => regs 1 = target.tested.pack
  | .reset _ => target.tested = Flags.cleared
  | _ => True

end ProcessorStep

namespace DebugAdapter

variable {δ : Type} [Chips δ]

omit [Chips δ] in
/-- The two readers show the same byte. -/
theorem flagsShown_iff (target : DebugAdapter δ) :
    target.FlagsShown ↔ target.flags = target.tested.pack :=
  ⟨And.left, fun shown => ⟨shown, shown⟩⟩

/-- An interrupt leaves the flags and the packed byte alone. -/
theorem checkInterrupt_flags (board : Board δ) :
    board.checkInterrupt.machine.cpu.flags = board.machine.cpu.flags ∧
      board.checkInterrupt.machine.cpu.f = board.machine.cpu.f := by
  have restart : ∀ bus : Bus δ, (bus.i8080Execute 0xff).2.cpu.flags = bus.cpu.flags ∧
      (bus.i8080Execute 0xff).2.cpu.f = bus.cpu.f := by
    intro bus
    obtain ⟨⟨iff', eiPending, cpu⟩, -, -⟩ := (bus.exec (.rst 7)).countdown_spec
    have flags :
        (bus.i8080Execute 0xff).2.cpu.flags = (bus.exec (.rst 7)).countdown.cpu.flags := rfl
    have packed : (bus.i8080Execute 0xff).2.cpu.f = (bus.exec (.rst 7)).countdown.cpu.f := rfl
    rw [flags, packed, cpu]
    exact ⟨rfl, rfl⟩
  unfold Board.checkInterrupt Board.acceptInterrupt
  dsimp only
  split
  · split <;> exact restart _
  · exact ⟨rfl, rfl⟩

/-- One step from a target that shows its flags: afterwards it shows them, and a byte it wrote
is tested, exactly when the step is one that keeps them. -/
theorem act_shown_iff (target : DebugAdapter δ) (step : ProcessorStep δ)
    (shown : target.FlagsShown) :
    step.Taken (target.act step) ∧ (target.act step).FlagsShown ↔ step.Meets target := by
  have before : target.board.machine.cpu.f = target.board.machine.cpu.flags.pack :=
    target.flagsShown_iff.mp shown
  have unwritten : step.written = none → step.Taken (target.act step) := by
    intro none f written
    exact nomatch none.symm.trans written
  have wrote : ∀ f, step.written = some f → (target.act step).flags = f →
      (target.act step).tested = target.tested →
      (step.Taken (target.act step) ∧ (target.act step).FlagsShown ↔ f = target.tested.pack) := by
    intro f written readBack same
    rw [flagsShown_iff, readBack, same]
    refine ⟨And.right, fun packs => ⟨fun f' written' => ?_, packs⟩⟩
    have value : f = f' := Option.some.inj (written.symm.trans written')
    rw [← value, same, packs, Flags.unpack_pack]
    exact ⟨readBack.trans packs, rfl⟩
  have untouched : step.written = none → (target.act step).flags = target.flags →
      (target.act step).tested = target.tested →
      step.Taken (target.act step) ∧ (target.act step).FlagsShown := by
    intro none packed flags
    refine ⟨unwritten none, (flagsShown_iff _).mpr ?_⟩
    rw [packed, flags]
    exact before
  cases step with
  | instruction =>
    have cpu : (target.act .instruction).board.machine.cpu = target.board.machine.next.cpu :=
      (target.board.singleStep_spec true).1
    rw [flagsShown_iff, flags, tested, cpu, target.board.machine.next_packed_iff before]
    exact ⟨And.right, fun keeps => ⟨unwritten rfl, keeps⟩⟩
  | interrupt =>
    obtain ⟨flags, packed⟩ := checkInterrupt_flags target.board
    exact iff_of_true (untouched rfl packed flags) trivial
  | writeCpuRegister reg value =>
    cases reg with
    | af => exact wrote value.low rfl rfl rfl
    | bc | de | hl | sp | pc => exact iff_of_true (untouched rfl rfl rfl) trivial
  | writeRegisters regs => exact wrote (regs 1) rfl rfl rfl
  | reset attachBoot =>
    have kept : (target.act (.reset attachBoot)).flags = target.tested.pack := by
      cases attachBoot <;> exact before
    have clear : (target.act (.reset attachBoot)).tested = Flags.cleared := by
      cases attachBoot <;> rfl
    rw [flagsShown_iff, kept, clear, Flags.pack_inj]
    exact ⟨And.right, fun cleared => ⟨unwritten rfl, cleared⟩⟩
  | elsewhere other => exact iff_of_true (untouched rfl rfl rfl) trivial

/-- The flags are shown in every state of a sequence of steps, and every written byte is
tested. -/
def ShownThroughout : DebugAdapter δ → List (ProcessorStep δ) → Prop
  | target, [] => target.FlagsShown
  | target, step :: steps =>
    target.FlagsShown ∧ step.Taken (target.act step) ∧ (target.act step).ShownThroughout steps

/-- Every step of a sequence keeps the flags shown. -/
def MeetsThroughout : DebugAdapter δ → List (ProcessorStep δ) → Prop
  | _, [] => True
  | target, step :: steps => step.Meets target ∧ (target.act step).MeetsThroughout steps

theorem ShownThroughout.start {target : DebugAdapter δ} {steps : List (ProcessorStep δ)}
    (shown : target.ShownThroughout steps) : target.FlagsShown := by
  cases steps with
  | nil => exact shown
  | cons step steps => exact shown.1

/-- The debugger shows the flags that the processor uses, over a whole sequence of instructions
and debugger writes, exactly when it does so at the start and every step keeps it so. -/
theorem flags_shown_iff (steps : List (ProcessorStep δ)) (target : DebugAdapter δ) :
    target.ShownThroughout steps ↔ target.FlagsShown ∧ target.MeetsThroughout steps := by
  induction steps generalizing target with
  | nil => exact ⟨fun shown => ⟨shown, trivial⟩, And.left⟩
  | cons step steps inductionHypothesis =>
    constructor
    · rintro ⟨shown, taken, rest⟩
      exact ⟨shown, (target.act_shown_iff step shown).mp ⟨taken, rest.start⟩,
        ((inductionHypothesis _).mp rest).2⟩
    · rintro ⟨shown, meets, rest⟩
      obtain ⟨taken, next⟩ := (target.act_shown_iff step shown).mpr meets
      exact ⟨shown, taken, (inductionHypothesis _).mpr ⟨next, rest⟩⟩

/-- A target just switched on. -/
def switchedOn (boot : List Byte) : DebugAdapter Unit where
  board := Board.powerOn () boot
  syncedBreakpoints := []
  files := fun _ => []

/-- `XRA A` sets the zero flag and the debugger goes on showing it clear; writing `F` with the
zero flag set leaves the processor testing it clear. -/
theorem shown_flags_stale :
    ¬ ((switchedOn [0xaf]).act .instruction).FlagsShown ∧
      ¬ (ProcessorStep.writeCpuRegister .af 0x0042).Taken
        ((switchedOn []).act (.writeCpuRegister .af 0x0042)) := by
  constructor
  · intro shown
    have cpu : ((switchedOn [0xaf]).act .instruction).board.machine.cpu =
        (switchedOn [0xaf]).board.machine.next.cpu :=
      ((switchedOn [0xaf]).board.singleStep_spec true).1
    have packed := (flagsShown_iff _).mp shown
    rw [flags, tested, cpu] at packed
    exact absurd packed (by decide)
  · intro taken
    exact absurd (taken 0x42 rfl).2 (by decide)

end DebugAdapter

end VectorDebugger

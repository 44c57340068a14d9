import Mathlib.Algebra.BigOperators.Group.List.Basic
import Mathlib.Data.BitVec
import VectorDebugger.Machine.BeamTime
import VectorDebugger.Machine.Calls

/-!
# The stack pointer

By how much an instruction moves the stack pointer can be read off the instruction and the
registers before it. Over a run of single steps these moves add up, whatever is called, pushed or
loaded on the way; an interrupt is taken by frames only and plays no part here.
-/

namespace VectorDebugger

namespace Machine

variable {δ : Type} [Chips δ]

/-- By how much the next instruction moves the stack pointer. -/
def stackChange (machine : Machine δ) : Word :=
  match decode machine.opcode with
  | .push _ | .pushPsw | .rst _ | .call => -2
  | .ccc cc => if machine.cpu.flags.test cc then -2 else 0
  | .pop _ | .popPsw | .ret => 2
  | .rcc cc => if machine.cpu.flags.test cc then 2 else 0
  | .inx .sp => 1
  | .dcx .sp => -1
  | .lxi .sp => machine.jumpOperand - machine.cpu.sp
  | .sphl => machine.cpu.hl - machine.cpu.sp
  | _ => 0

/-- The word on top of the stack. -/
def stackTop (machine : Machine δ) : Word :=
  wordOf (machine.memory.read machine.cpu.sp.toNat true).1
    (machine.memory.read (machine.cpu.sp.toNat + 1) true).1

theorem executed_sp (machine : Machine δ) :
    machine.executed.cpu.sp = machine.cpu.sp + machine.stackChange := by
  have noPop : ∀ opcode, decode opcode ≠ .pop .sp :=
    @forall_decode (fun _ instr => instr ≠ .pop .sp) (by decide +kernel)
  have minus : ∀ word : Word, word - 2 = word + -2 := fun word => BitVec.sub_eq_add_neg word 2
  have load : ∀ old new : Word, new = old + (new - old) := by
    intro old new
    rw [BitVec.add_comm, BitVec.sub_add_cancel]
  have still : machine.cpu.sp = machine.cpu.sp + 0 := (BitVec.add_zero _).symm
  have other := noPop machine.opcode
  unfold executed stackChange
  cases instr : decode machine.opcode with
  | push rp | pushPsw | rst n | call => exact minus machine.cpu.sp
  | ccc cc =>
    unfold Bus.exec
    dsimp only
    have flags : machine.bus.fetchByte.2.cpu.flags = machine.cpu.flags := rfl
    rw [flags]
    split
    · exact minus machine.cpu.sp
    · exact still
  | rcc cc =>
    unfold Bus.exec
    dsimp only
    have flags : machine.bus.fetchByte.2.cpu.flags = machine.cpu.flags := rfl
    rw [flags]
    split
    · rfl
    · exact still
  | pop rp =>
    rw [instr] at other
    cases rp with
    | sp => exact absurd rfl other
    | bc | de | hl => rfl
  | popPsw | ret => rfl
  | inx rp =>
    cases rp with
    | sp => rfl
    | bc | de | hl => exact still
  | dcx rp =>
    cases rp with
    | sp => exact BitVec.sub_eq_add_neg _ 1
    | bc | de | hl => exact still
  | lxi rp =>
    cases rp with
    | sp => exact load machine.cpu.sp machine.jumpOperand
    | bc | de | hl => exact still
  | sphl => exact load machine.cpu.sp machine.cpu.hl
  | jcc cc =>
    unfold Bus.exec
    dsimp only
    split <;> exact still
  | mvi r | inr r | dcr r | movFromM r => cases r <;> exact still
  | mov dst src => cases dst <;> exact still
  | alu op src => cases op <;> exact still
  | aluM op | aluImm op => cases op <;> exact still
  | _ => exact still

/-- One instruction moves the stack pointer by its own amount. -/
theorem next_sp (machine : Machine δ) :
    machine.next.cpu.sp = machine.cpu.sp + machine.stackChange := by
  obtain ⟨⟨iff, eiPending, cpuCycles, cpu⟩, -, -⟩ := machine.next_executed
  rw [cpu]
  exact machine.executed_sp

/-- A return goes to the word on top of the stack. -/
theorem next_pc_of_ret (machine : Machine δ) (ret : decode machine.opcode = .ret) :
    machine.next.cpu.pc = machine.stackTop := by
  obtain ⟨⟨iff, eiPending, cpuCycles, cpu⟩, -, -⟩ := machine.next_executed
  rw [cpu]
  unfold executed
  rw [ret]
  rfl

end Machine

end VectorDebugger

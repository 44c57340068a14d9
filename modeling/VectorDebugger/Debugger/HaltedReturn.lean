import VectorDebugger.Debugger.DebugAdapter
import VectorDebugger.Machine.Accesses
import VectorDebugger.Machine.Interrupts

/-!
# Returning from an interrupt

`check_interrupt` takes the processor for halted when the last opcode was that of `HLT`. The
processor itself is halted where it has executed a `HLT` and still stands on it; a run keeps the
address of that `HLT` beside the board, and the two are compared whenever an interrupt is accepted.
-/

namespace VectorDebugger

/-- A board with the address of the `HLT` that its processor executed last, if it has executed
nothing else and taken no interrupt since. -/
structure Halting (δ : Type) where
  /-- The board. -/
  board : Board δ
  /-- Where the `HLT` is. -/
  stood : Option Word

/-- What happens to a board. -/
inductive HaltEvent
  /-- `single_step`. -/
  | executed
  /-- `check_interrupt` accepted an interrupt. -/
  | accepted
  /-- `check_interrupt` accepted none. -/
  | polled
  /-- `Board::reset`. -/
  | reset
  /-- Anything else. -/
  | outside
deriving DecidableEq, Repr

namespace Halting

variable {δ : Type} [Chips δ]

/-- The program counter. -/
def pc (state : Halting δ) : Word := state.board.machine.cpu.pc

/-- Where an interrupt has to return to: to the instruction that would have executed next, which
is the one after the `HLT` on which the processor stands. -/
def returnPlace (state : Halting δ) : Word :=
  if state.stood = some state.pc then state.pc + 1 else state.pc

/-- The memory with the return address pushed by stack writes. -/
def pushedMemory (state : Halting δ) (place : Word) : Memory :=
  (state.board.machine.memory.write (state.board.machine.cpu.sp - 2).toNat place.low true).write
    ((state.board.machine.cpu.sp - 2).toNat + 1) place.high true

/-- An interrupt pushes the place it has to return to, and execution goes on at `0038h`. -/
structure ReturnsRight (state : Halting δ) : Prop where
  /-- The address pushed. -/
  memory : state.board.checkInterrupt.machine.memory = state.pushedMemory state.returnPlace
  /-- The stack pointer. -/
  sp : state.board.checkInterrupt.machine.cpu.sp = state.board.machine.cpu.sp - 2
  /-- The program counter. -/
  pc : state.board.checkInterrupt.machine.cpu.pc = 0x0038

/-- The steps of a board. Outside the processor anything may change, the program counter and the
interrupt lines too: `last_opcode` is written by `single_step` and by `Board::reset` only, and is
no part of a saved state. -/
inductive Move : Halting δ → HaltEvent → Halting δ → Prop
  /-- `single_step`. -/
  | step (state : Halting δ) (updateScreen : Bool) :
    Move state .executed
      ⟨state.board.singleStep updateScreen,
        if state.board.machine.opcode = 0x76 then some state.pc else none⟩
  /-- `check_interrupt` with a request it takes. -/
  | accept (state : Halting δ) (accepts : state.board.acceptsInterrupt = true) :
    Move state .accepted ⟨state.board.checkInterrupt, none⟩
  /-- `check_interrupt` otherwise. -/
  | poll (state : Halting δ) (refuses : state.board.acceptsInterrupt = false) :
    Move state .polled ⟨state.board.checkInterrupt, state.stood⟩
  /-- `Board::reset`. -/
  | reset (state : Halting δ) (mode : ResetMode) (optionsPc : Word) :
    Move state .reset ⟨state.board.reset mode optionsPc, none⟩
  /-- Anything else. -/
  | outside (state : Halting δ) (other : Board δ)
    (kept : other.lastOpcode = state.board.lastOpcode) :
    Move state .outside ⟨other, state.stood⟩

/-- Steps of which none, outside the processor, leaves an interrupt to be accepted with the program
counter off the `HLT` that `last_opcode` still stands for. -/
def CarefulMove (state : Halting δ) (event : HaltEvent) (next : Halting δ) : Prop :=
  Move state event next ∧
    (event = .outside → state.board.lastOpcode = 0x76 → next.board.acceptsInterrupt = true →
      state.stood = some next.pc)

/-- What careful steps keep. -/
structure InStep (state : Halting δ) : Prop where
  /-- The `HLT` on which the processor stands was the last opcode. -/
  halted : ∀ place, state.stood = some place → state.board.lastOpcode = 0x76
  /-- Where an interrupt would be accepted after a `HLT`, the processor stands on it. -/
  standing : state.board.lastOpcode = 0x76 → state.board.acceptsInterrupt = true →
    state.stood = some state.pc

end Halting

namespace Machine

variable {δ : Type} [Chips δ]

/-- `HLT` stays where it is. -/
theorem next_pc_of_hlt (machine : Machine δ) (hlt : machine.opcode = 0x76) :
    machine.next.cpu.pc = machine.cpu.pc := by
  obtain ⟨⟨iff, eiPending, cpuCycles, cpu⟩, -, -⟩ := machine.next_executed
  have decoded : decode machine.opcode = .hlt := by
    rw [hlt]
    rfl
  rw [cpu]
  unfold executed
  rw [decoded]
  exact BitVec.add_sub_cancel _ _

end Machine

namespace Bus

variable {δ : Type} [Chips δ]

/-- `RST 7` outside an instruction pushes the program counter as it stands. -/
theorem restart_spec (bus : Bus δ) :
    (bus.i8080Execute 0xff).2.memory =
        (bus.memory.write (bus.cpu.sp - 2).toNat bus.cpu.pc.low true).write
          ((bus.cpu.sp - 2).toNat + 1) bus.cpu.pc.high true ∧
      (bus.i8080Execute 0xff).2.cpu.sp = bus.cpu.sp - 2 ∧
      (bus.i8080Execute 0xff).2.cpu.pc = 0x0038 ∧
      (bus.i8080Execute 0xff).2.irq = bus.irq := by
  have decoded : decode 0xff = .rst 7 := rfl
  obtain ⟨⟨iff, eiPending, cpu⟩, memory, -⟩ := (bus.exec (.rst 7)).countdown_spec
  have irq := congrArg InterruptLines.irq (bus.lines_i8080Execute 0xff)
  have kept : ∀ lines : InterruptLines, (lines.execute (.rst 7)).irq = lines.irq := by
    intro lines
    unfold InterruptLines.execute InterruptLines.countdown InterruptLines.exec
    dsimp only
    split
    · rfl
    · split <;> rfl
  rw [decoded, kept] at irq
  unfold i8080Execute
  rw [decoded]
  refine ⟨memory, ?_, ?_, ?_⟩
  · show (bus.exec (.rst 7)).countdown.cpu.sp = _
    rw [cpu]
    rfl
  · show (bus.exec (.rst 7)).countdown.cpu.pc = _
    rw [cpu]
    rfl
  · unfold i8080Execute at irq
    rw [decoded] at irq
    exact irq

end Bus

namespace Board

variable {δ : Type} [Chips δ]

/-- What accepting an interrupt does: the place to return to is taken from `last_opcode`. -/
theorem acceptInterrupt_spec (board : Board δ) {place : Word}
    (placeEq : (if board.lastOpcode = 0x76 then board.machine.cpu.pc + 1
      else board.machine.cpu.pc) = place) :
    board.acceptInterrupt.machine.memory =
        (board.machine.memory.write (board.machine.cpu.sp - 2).toNat place.low true).write
          ((board.machine.cpu.sp - 2).toNat + 1) place.high true ∧
      board.acceptInterrupt.machine.cpu.sp = board.machine.cpu.sp - 2 ∧
      board.acceptInterrupt.machine.cpu.pc = 0x0038 ∧
      board.acceptInterrupt.machine.irq = false ∧
      board.acceptInterrupt.lastOpcode = board.lastOpcode := by
  have lowered : (board.interrupt false).machine.irq = false := Bool.and_false _
  unfold acceptInterrupt
  dsimp only
  by_cases halted : board.lastOpcode = 0x76
  · rw [if_pos halted] at placeEq ⊢
    subst placeEq
    obtain ⟨memory, sp, pc, irq⟩ := Bus.restart_spec
      ((board.interrupt false).jump ((board.interrupt false).machine.cpu.pc + 1)).machine.bus
    exact ⟨memory, sp, pc, irq.trans lowered, rfl⟩
  · rw [if_neg halted] at placeEq ⊢
    subst placeEq
    obtain ⟨memory, sp, pc, irq⟩ := Bus.restart_spec (board.interrupt false).machine.bus
    exact ⟨memory, sp, pc, irq.trans lowered, rfl⟩

end Board

namespace Halting

variable {δ : Type} [Chips δ]

/-- One careful step. -/
theorem inStep_of_move {state next : Halting δ} {event : HaltEvent}
    (move : CarefulMove state event next) (inStep : state.InStep) : next.InStep := by
  obtain ⟨move, careful⟩ := move
  cases move with
  | step updateScreen =>
    have after := state.board.singleStep_stepOf updateScreen
    by_cases hlt : state.board.machine.opcode = 0x76
    · have still : (state.board.singleStep updateScreen).machine.cpu.pc = state.pc := by
        rw [(state.board.singleStep_spec updateScreen).1]
        exact Machine.next_pc_of_hlt _ hlt
      rw [if_pos hlt]
      exact ⟨fun _ _ => after.lastOpcode.trans hlt, fun _ _ => congrArg some still.symm⟩
    · rw [if_neg hlt]
      exact ⟨fun _ none => (Option.some_ne_none _ none.symm).elim,
        fun halted => absurd (after.lastOpcode.symm.trans halted) hlt⟩
  | accept accepts =>
    obtain ⟨-, -, -, irq, -⟩ := state.board.acceptInterrupt_spec rfl
    have accepted : state.board.checkInterrupt = state.board.acceptInterrupt := if_pos accepts
    have refuses : state.board.checkInterrupt.acceptsInterrupt = false := by
      rw [accepted]
      unfold Board.acceptsInterrupt
      rw [irq, Bool.false_and]
    exact ⟨fun _ none => (Option.some_ne_none _ none.symm).elim,
      fun _ again => absurd (refuses.symm.trans again) Bool.false_ne_true⟩
  | poll refuses =>
    have same : state.board.checkInterrupt = state.board := by
      unfold Board.checkInterrupt
      rw [refuses, if_neg Bool.false_ne_true]
    rw [same]
    exact inStep
  | reset mode optionsPc =>
    have cleared : (state.board.reset mode optionsPc).lastOpcode ≠ 0x76 := by
      show (0 : Byte) ≠ 0x76
      decide
    exact ⟨fun _ none => (Option.some_ne_none _ none.symm).elim,
      fun halted => absurd halted cleared⟩
  | outside other kept =>
    refine ⟨fun place stood => kept.trans (inStep.halted place stood), fun halted accepts => ?_⟩
    exact careful rfl (kept.symm.trans halted) accepts

/-- Where the two ways of being halted agree, an interrupt returns to the right place. -/
theorem returnsRight_of_inStep {state : Halting δ} (inStep : state.InStep)
    (accepts : state.board.acceptsInterrupt = true) : state.ReturnsRight := by
  have place : (if state.board.lastOpcode = 0x76 then state.board.machine.cpu.pc + 1
      else state.board.machine.cpu.pc) = state.returnPlace := by
    unfold returnPlace
    by_cases halted : state.board.lastOpcode = 0x76
    · rw [if_pos halted, if_pos (inStep.standing halted accepts)]
      rfl
    · rw [if_neg halted, if_neg fun standing => halted (inStep.halted _ standing)]
      rfl
  obtain ⟨memory, sp, pc, -, -⟩ := state.board.acceptInterrupt_spec place
  have accepted : state.board.checkInterrupt = state.board.acceptInterrupt := if_pos accepts
  constructor <;> rw [accepted]
  · exact memory
  · exact sp
  · exact pc

/-- What leaves the machine and `last_opcode` alone is a careful step. -/
theorem careful_of_kept {state : Halting δ} (inStep : state.InStep) {other : Board δ}
    (machine : other.machine = state.board.machine)
    (kept : other.lastOpcode = state.board.lastOpcode) :
    CarefulMove state .outside ⟨other, state.stood⟩ := by
  refine ⟨.outside state other kept, fun _ halted accepts => ?_⟩
  have same : other.acceptsInterrupt = state.board.acceptsInterrupt := by
    unfold Board.acceptsInterrupt
    rw [machine]
  have place : (⟨other, state.stood⟩ : Halting δ).pc = state.pc := by
    unfold pc
    rw [machine]
  rw [place]
  exact inStep.standing halted (same.symm.trans accepts)

/-- `check_interrupt` is a careful step. -/
theorem careful_check (state : Halting δ) :
    ∃ event stood, CarefulMove state event ⟨state.board.checkInterrupt, stood⟩ := by
  cases accepts : state.board.acceptsInterrupt with
  | true =>
    exact ⟨.accepted, none, .accept state accepts, fun outside => absurd outside (by decide)⟩
  | false =>
    exact ⟨.polled, state.stood, .poll state accepts, fun outside => absurd outside (by decide)⟩

/-- The head of the loop of `execute_frame` is a run of careful steps. -/
theorem beginIteration_run {state : Halting δ} (inStep : state.InStep) :
    ∃ events stood,
      Transition.Run CarefulMove state events ⟨state.board.beginIteration, stood⟩ := by
  obtain ⟨event, stood, check⟩ := careful_check state
  have after := inStep_of_move check inStep
  have cleared : CarefulMove ⟨state.board.checkInterrupt, stood⟩ .outside
      ⟨state.board.beginIteration, stood⟩ := careful_of_kept after rfl rfl
  exact ⟨[event, .outside], stood, .cons check (.cons cleared (.nil _))⟩

/-- So is the loop: only what is done between frames can go wrong. -/
theorem frameLoop_run (updateScreen : Bool) (fuel : Nat) :
    ∀ {state : Halting δ} {boards : List (Board δ)} {after : Board δ}, state.InStep →
      state.board.frameLoop updateScreen fuel = some (boards, after) →
        ∃ events stood, Transition.Run CarefulMove state events ⟨after, stood⟩ := by
  induction fuel with
  | zero => exact fun _ none => (Option.some_ne_none _ none.symm).elim
  | succ fuel inductionHypothesis =>
    intro state boards after inStep looped
    unfold Board.frameLoop at looped
    dsimp only at looped
    split at looped
    · have same : state.board = after := congrArg Prod.snd (Option.some.inj looped)
      exact ⟨[], state.stood, same ▸ .nil state⟩
    · obtain ⟨events, stood, begun⟩ := beginIteration_run inStep
      have begunInStep :=
        begun.invariant (fun _ _ _ inStep move => inStep_of_move move inStep) inStep
      split at looped
      · have same : { state.board.beginIteration with debuggerInterrupt := true } = after :=
          congrArg Prod.snd (Option.some.inj looped)
        have stopped : CarefulMove ⟨state.board.beginIteration, stood⟩ .outside ⟨after, stood⟩ := by
          rw [← same]
          exact careful_of_kept begunInStep rfl rfl
        exact ⟨_, stood, begun.append (.cons stopped (.nil _))⟩
      · obtain ⟨rest, found, pair⟩ := Option.map_eq_some_iff.mp looped
        have step : CarefulMove ⟨state.board.beginIteration, stood⟩ .executed
            ⟨state.board.beginIteration.singleStep updateScreen,
              if state.board.beginIteration.machine.opcode = 0x76 then
                some state.board.beginIteration.machine.cpu.pc else none⟩ :=
          ⟨.step _ updateScreen, fun outside => absurd outside (by decide)⟩
        have last : rest.2 = after := congrArg Prod.snd pair
        obtain ⟨others, stood', loop⟩ :=
          inductionHypothesis (inStep_of_move step begunInStep) found
        rw [last] at loop
        exact ⟨_, stood', begun.append (.cons step loop)⟩

/-- The debugger writes a register while the board is paused. -/
theorem writeCpuRegister_move (target : DebugAdapter δ) (stood : Option Word) (reg : RegisterId)
    (value : Word) :
    Move ⟨target.board, stood⟩ .outside ⟨(target.writeCpuRegister reg value).board, stood⟩ :=
  .outside _ _ rfl

/-- A register other than the program counter is written by a careful step. -/
theorem careful_writeCpuRegister {target : DebugAdapter δ} {stood : Option Word}
    (inStep : InStep ⟨target.board, stood⟩) {reg : RegisterId} (other : reg ≠ .pc) (value : Word) :
    CarefulMove ⟨target.board, stood⟩ .outside
      ⟨(target.writeCpuRegister reg value).board, stood⟩ := by
  refine ⟨writeCpuRegister_move target stood reg value, fun _ halted accepts => ?_⟩
  have standing := inStep.standing halted
  cases reg with
  | pc => exact absurd rfl other
  | _ => exact standing accepts

/-- In every careful run of a board from its reset, an interrupt that is accepted returns to the
right place. -/
theorem interrupt_returns {board : Board δ} {mode : ResetMode} {optionsPc : Word}
    {events : List HaltEvent} {final : Halting δ}
    (run : Transition.Run CarefulMove ⟨board.reset mode optionsPc, none⟩ events final)
    (accepts : final.board.acceptsInterrupt = true) : final.ReturnsRight := by
  have cleared : (board.reset mode optionsPc).lastOpcode ≠ 0x76 := by
    show (0 : Byte) ≠ 0x76
    decide
  have initial : InStep ⟨board.reset mode optionsPc, none⟩ :=
    ⟨fun _ none => (Option.some_ne_none _ none.symm).elim, fun halted => absurd halted cleared⟩
  exact returnsRight_of_inStep
    (run.invariant (fun _ _ _ inStep move => inStep_of_move move inStep) initial) accepts

/-- Careful runs are runs. -/
theorem moves_of_careful {start final : Halting δ} {events : List HaltEvent}
    (run : Transition.Run CarefulMove start events final) :
    Transition.Run Move start events final := by
  induction run with
  | nil state => exact .nil state
  | cons step rest inductionHypothesis => exact .cons step.1 inductionHypothesis

/-- Stepping is a careful run, and `HLT` leaves the processor standing on it. -/
theorem steps_run (updateScreen : Bool) (count : Nat) (state : Halting δ) :
    ∃ events stood, Transition.Run CarefulMove state events
      ⟨(fun board : Board δ => board.singleStep updateScreen)^[count] state.board, stood⟩ := by
  induction count generalizing state with
  | zero => exact ⟨[], state.stood, .nil state⟩
  | succ count inductionHypothesis =>
    have first : CarefulMove state .executed
        ⟨state.board.singleStep updateScreen,
          if state.board.machine.opcode = 0x76 then some state.pc else none⟩ :=
      ⟨.step state updateScreen, fun outside => absurd outside (by decide)⟩
    obtain ⟨events, stood, rest⟩ := inductionHypothesis
      ⟨state.board.singleStep updateScreen,
        if state.board.machine.opcode = 0x76 then some state.pc else none⟩
    exact ⟨_, stood, .cons first rest⟩

/-- A board that was reset, ran an `EI` and was stepped through its `HLT`. -/
def steppedBoard (count : Nat) : Board Unit :=
  (fun board : Board Unit => board.singleStep true)^[count]
    ((Board.powerOn () [0xfb, 0x76]).reset .blkvvod 0)

/-- The `HLT` at which a frame interrupt comes. -/
theorem steppedBoard_run :
    ∃ events, Transition.Run CarefulMove
      ⟨(Board.powerOn () [0xfb, 0x76]).reset .blkvvod 0, none⟩ events
      ⟨steppedBoard 11, some 1⟩ := by
  obtain ⟨events, stood, run⟩ := steps_run true 10
    (⟨(Board.powerOn () [0xfb, 0x76]).reset .blkvvod 0, none⟩ : Halting Unit)
  have opcode : (steppedBoard 10).machine.opcode = 0x76 := by decide +kernel
  have place : (steppedBoard 10).machine.cpu.pc = 1 := by decide +kernel
  have last : CarefulMove (⟨steppedBoard 10, stood⟩ : Halting Unit) .executed
      ⟨(steppedBoard 10).singleStep true,
        if (steppedBoard 10).machine.opcode = 0x76 then some (steppedBoard 10).machine.cpu.pc
        else none⟩ :=
    ⟨.step _ true, fun outside => absurd outside (by decide)⟩
  rw [if_pos opcode, place] at last
  have next : steppedBoard 11 = (steppedBoard 10).singleStep true :=
    Function.iterate_succ_apply' _ 10 _
  rw [next]
  exact ⟨_, run.append (.cons last (.nil _))⟩

theorem steppedBoard_accepts : (steppedBoard 11).acceptsInterrupt = true := by decide +kernel

theorem interrupt_returns_halted : ReturnsRight ⟨steppedBoard 11, some 1⟩ := by
  obtain ⟨events, run⟩ := steppedBoard_run
  exact interrupt_returns run steppedBoard_accepts

/-- The debugger moves the program counter off the `HLT` before the board goes on. -/
def movedState : Halting Unit where
  board :=
    (({ board := steppedBoard 11, syncedBreakpoints := [], files := fun _ => [] } :
      DebugAdapter Unit).writeCpuRegister .pc 0x0200).board
  stood := some 1

/-- The interrupt then returns to `0201h`. -/
theorem movedState_returns :
    ¬ ∀ (board : Board Unit) (mode : ResetMode) (optionsPc : Word) (events : List HaltEvent)
      (final : Halting Unit),
      Transition.Run Move ⟨board.reset mode optionsPc, none⟩ events final →
        final.board.acceptsInterrupt = true → final.ReturnsRight := by
  intro always
  obtain ⟨events, careful⟩ := steppedBoard_run
  have moved : Move ⟨steppedBoard 11, some 1⟩ .outside movedState :=
    writeCpuRegister_move
      { board := steppedBoard 11, syncedBreakpoints := [], files := fun _ => [] } (some 1) .pc 0x200
  have accepts : movedState.board.acceptsInterrupt = true := by decide +kernel
  have run := (moves_of_careful careful).append (.cons moved (.nil _))
  have right := always (Board.powerOn () [0xfb, 0x76]) .blkvvod 0 _ _ run accepts
  have pushed : (movedState.board.checkInterrupt.machine.memory.read 0xfffe true).1 = 0x01 := by
    decide +kernel
  have due : ((movedState.pushedMemory movedState.returnPlace).read 0xfffe true).1 = 0x00 := by
    decide +kernel
  rw [right.memory, due] at pushed
  exact absurd pushed (by decide)

end Halting

end VectorDebugger

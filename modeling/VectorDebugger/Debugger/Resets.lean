import VectorDebugger.Debugger.LoadedRom
import VectorDebugger.Machine.Interrupts

/-!
# Interrupts after a reset

Every reset operation of the debugger starts the processor at zero and drops the latched request,
but they differ in what else they clear. Loading a program executes a `DI` and leaves nothing.
A reset with the boot overlay lowers `inte` and keeps an `EI` that is still waiting; a reset
without it keeps `IFF` and `inte` as well. So the next frame signal can interrupt a program that
has not executed an `EI` yet, exactly when the program before it left interrupts on or waiting.
-/

namespace VectorDebugger

/-- The beam after `passes` passes from clock `clk`. -/
def Beam.walk : Nat → Nat → Beam → Beam
  | 0, _, beam => beam
  | passes + 1, clk, beam => walk passes (clk + 2) (beam.clock clk)

/-- A fill moves the beam in its own way, whatever is committed meanwhile. -/
theorem Raster.clocks_walk {δ : Type} [Chips δ] (commitTime commitTimePal : Int) (passes : Nat) :
    ∀ (clk : Nat) (raster : Raster δ),
      (clocks commitTime commitTimePal passes clk raster).1.beam = raster.beam.walk passes clk := by
  induction passes with
  | zero => exact fun clk raster => rfl
  | succ passes inductionHypothesis =>
    intro clk raster
    unfold clocks Beam.walk
    rw [inductionHypothesis, Raster.clock_beam]

namespace Board

variable {δ : Type} [Chips δ]

/-- What every run keeps of the cells: they are in step, and an `EI` waits for one instruction at
most. -/
structure Settled (board : Board δ) : Prop where
  /-- The cells are in step. -/
  linked : board.machine.lines.Linked
  /-- An `EI` waits for one instruction. -/
  waiting : board.machine.lines.eiPending ≤ 1

theorem Settled.tick {board after : Board δ} {event : InterruptEvent} (settled : board.Settled)
    (tick : Tick board event after) : after.Settled := by
  have guarded : board.Guarded .passed := ⟨settled.linked, trivial⟩
  have linked : after.machine.lines.Linked := (tick.guarded guarded).1.linked
  refine ⟨linked, ?_⟩
  cases tick with
  | accept accepts =>
    unfold checkInterrupt
    rw [if_pos accepts, board.lines_acceptInterrupt settled.linked accepts]
    exact settled.waiting
  | poll refuses =>
    unfold checkInterrupt
    rw [refuses]
    exact settled.waiting
  | step updateScreen =>
    obtain ⟨signal, lines⟩ := board.lines_singleStep updateScreen
    have before := settled.waiting
    rw [lines]
    change ((board.machine.lines.exec _).countdown).eiPending ≤ 1
    have pending : (board.machine.lines.exec (decode board.machine.opcode)).eiPending ≤ 2 := by
      unfold InterruptLines.exec
      split
      · exact Nat.zero_le 2
      · exact le_refl 2
      · omega
    unfold InterruptLines.countdown
    split
    · omega
    · split
      · exact Nat.zero_le 1
      · dsimp only
        omega
  | reset mode optionsPc =>
    have lines : (board.reset mode optionsPc).machine.lines.eiPending =
        board.machine.lines.eiPending := by
      cases mode <;> rfl
    rw [lines]
    exact settled.waiting
  | elsewhere other kept =>
    rw [kept]
    exact settled.waiting

/-- Every board that a run from power-on reaches. -/
theorem settled_of_run {chips : δ} {boot : List Byte} {history : List InterruptEvent}
    {board : Board δ} (reached : Transition.Run Tick (powerOn chips boot) history board) :
    board.Settled :=
  reached.invariant (fun _ _ _ settled tick => settled.tick tick)
    ⟨⟨nofun, nofun⟩, Nat.zero_le 1⟩

/-- A board on a memory of `NOP`s, with the given cells and a frame signal waiting. -/
def idling (chips : δ) (lines : InterruptLines) : Board δ :=
  let board := powerOn chips []
  { board with
    machine := { board.machine with
      cpu := { board.machine.cpu with iff := lines.iff, eiPending := lines.eiPending }
      inte := lines.inte
      irq := lines.irq }
    irqCarry := true }

omit [Chips δ] in
theorem idling_opcode (chips : δ) (lines : InterruptLines) :
    decode (idling chips lines).machine.opcode = .nop := rfl

theorem idling_beam (chips : δ) (lines : InterruptLines) :
    (idling chips lines).drawing.1.beam.irq = false := by
  have time : (idling chips lines).pendingCycles = 4 := rfl
  have start : (idling chips lines).drawn.beam = (powerOn () []).beam := rfl
  unfold drawing Raster.fill1
  dsimp only
  rw [Raster.commits_beam, Raster.clocks_walk, time, start]
  decide

/-- Its next instruction lets the frame signal through. -/
theorem idling_step (chips : δ) (lines : InterruptLines) :
    ((idling chips lines).singleStep true).machine.lines =
      (lines.execute .nop).request true := by
  have after := (idling chips lines).singleStep_stepOf true
  have executed := (idling chips lines).machine.lines_next
  rw [idling_opcode] at executed
  have raised : (idling chips lines).request.2 =
      ((idling chips lines).machine.next.irq || (idling chips lines).machine.next.inte) := by
    unfold request interruptRequest
    dsimp only
    rw [idling_beam, if_neg Bool.false_ne_true, if_pos (show (idling chips lines).irqCarry = true
      from rfl)]
  have same : (lines.execute .nop).request true =
      (idling chips lines).machine.next.lines.request true := by
    rw [executed]
    rfl
  rw [same, after.machine, raised]
  unfold InterruptLines.request
  rw [Bool.and_true]
  rfl

end Board

namespace Board

variable {δ : Type} [Chips δ]

/-- No interrupt is accepted in any continuation before an `EI` is executed. -/
def NoneBeforeEi (board : Board δ) : Prop :=
  ∀ events final, Transition.Run Tick board events final → ∀ front back,
    events = front ++ .accepted :: back → .executed .ei ∈ front

/-- From settled cells that satisfies the shut window no interrupt comes before an `EI`. -/
theorem noneBeforeEi_of_shut {board : Board δ} (linked : board.machine.lines.Linked)
    (shut : EiWindow.shut.Allows board.machine.lines) : board.NoneBeforeEi := by
  intro events final run front back split'
  have passed := (guarded_run run .shut ⟨linked, shut⟩).2 front back split'
  obtain ⟨before, between, instr, after, inFront, -⟩ := EiWindow.ei_of_passed passed
  rw [inFront]
  simp

/-- Otherwise the next frame signal can bring one: a program of `NOP`s is interrupted. -/
theorem shut_of_noneBeforeEi {board : Board δ} (waiting : board.machine.lines.eiPending ≤ 1)
    (never : board.NoneBeforeEi) : EiWindow.shut.Allows board.machine.lines := by
  by_contra opened
  let lines := board.machine.lines
  have enabled : ((lines.execute .nop).request true).accepts = true := by
    unfold InterruptLines.execute InterruptLines.countdown InterruptLines.exec
    dsimp only
    by_cases none : lines.eiPending = 0
    · rw [if_pos none]
      have both : lines.iff = true ∧ lines.inte = true := by
        constructor
        · by_contra off
          exact opened ⟨none, Or.inl (Bool.eq_false_iff.mpr off)⟩
        · by_contra low
          exact opened ⟨none, Or.inr (Bool.eq_false_iff.mpr low)⟩
      unfold InterruptLines.request InterruptLines.accepts
      dsimp only
      rw [both.1, both.2, Bool.and_true, Bool.and_true, Bool.or_true]
    · have one : lines.eiPending = 1 := by
        have bound : lines.eiPending ≤ 1 := waiting
        omega
      rw [if_neg none, if_pos one]
      unfold InterruptLines.request InterruptLines.accepts
      dsimp only
      rw [Bool.and_true, Bool.and_true, Bool.or_true]
  have step := idling_step board.machine.io.chips lines
  set idle := idling board.machine.io.chips lines with idleEq
  have accepts : (idle.singleStep true).acceptsInterrupt = true := by
    have same : (idle.singleStep true).acceptsInterrupt =
        (idle.singleStep true).machine.lines.accepts := rfl
    rw [same, step]
    exact enabled
  have run : Transition.Run Tick board
      [.elsewhere, .executed (decode idle.machine.opcode), .accepted]
      (idle.singleStep true).checkInterrupt :=
    .cons (.elsewhere board idle rfl)
      (.cons (.step idle true) (.cons (.accept _ accepts) (.nil _)))
  have before := never _ _ run [.elsewhere, .executed (decode idle.machine.opcode)] [] rfl
  rw [idleEq, idling_opcode] at before
  simp at before

end Board

namespace DebugAdapter

variable {δ : Type} [Chips δ]

/-- The reset operations of the debugger. -/
inductive ResetOperation
  /-- `DebugAdapter::reset`. -/
  | reset (attachBoot : Bool)
  /-- `DebugAdapter::loadRom`. -/
  | loadRom (path : Text) (org : Nat)

/-- The target after a reset operation, with its result. -/
def perform (target : DebugAdapter δ) : ResetOperation → DebugAdapter δ × Bool
  | .reset attachBoot => (target.reset attachBoot, true)
  | .loadRom path org => target.loadRom path org

/-- What the program before a reset operation must have left: without the boot overlay `IFF` or
`inte` off, and no `EI` waiting; with it no `EI` waiting; before a load anything. -/
def LeavesQuiet (board : Board δ) : ResetOperation → Prop
  | .reset false => board.machine.cpu.eiPending = 0 ∧
      (board.machine.cpu.iff = false ∨ board.machine.inte = false)
  | .reset true => board.machine.cpu.eiPending = 0
  | .loadRom .. => True

/-- The cells after a reset operation. -/
theorem perform_lines (target : DebugAdapter δ) (operation : ResetOperation)
    (done : (target.perform operation).2 = true)
    (settled : target.board.Settled) :
    (target.perform operation).1.board.Settled ∧
      (EiWindow.shut.Allows (target.perform operation).1.board.machine.lines ↔
        LeavesQuiet target.board operation) ∧
      (target.perform operation).1.board.machine.cpu.pc = 0 := by
  obtain ⟨linked, waiting⟩ := settled
  cases operation with
  | reset attachBoot =>
    cases attachBoot with
    | false => exact ⟨⟨⟨nofun, linked.enabled⟩, waiting⟩, Iff.rfl, rfl⟩
    | true =>
      have low : (target.perform (.reset true)).1.board.machine.inte = false := rfl
      refine ⟨⟨⟨nofun, linked.enabled⟩, waiting⟩, ⟨And.left, fun idle => ⟨idle, Or.inr low⟩⟩, rfl⟩
  | loadRom path org =>
    have after := target.loadRom_machine path org done
    refine ⟨⟨⟨?_, ?_⟩, ?_⟩, ⟨fun _ => trivial, fun _ => ⟨after.eiPending, Or.inl after.iff⟩⟩,
      after.pc⟩
    · intro raised
      exact absurd (after.irq.symm.trans raised) nofun
    · intro enabled
      exact absurd (after.iff.symm.trans enabled) nofun
    · exact le_of_eq_of_le after.eiPending (Nat.zero_le 1)

/-- After a reset operation the processor is at zero, and no interrupt is accepted before the
program has executed an `EI` exactly when the program before it left interrupts quiet. -/
theorem reset_quiet_iff {chips : δ} {boot : List Byte} {history : List InterruptEvent}
    (target : DebugAdapter δ) (operation : ResetOperation)
    (reached : Transition.Run Board.Tick (Board.powerOn chips boot) history target.board)
    (done : (target.perform operation).2 = true) :
    ((target.perform operation).1.pc = 0 ∧
        (target.perform operation).1.board.NoneBeforeEi) ↔
      LeavesQuiet target.board operation := by
  obtain ⟨settled, quiet, pc⟩ :=
    target.perform_lines operation done (Board.settled_of_run reached)
  have zero : (target.perform operation).1.pc = 0 := pc
  rw [and_iff_right zero, ← quiet]
  constructor
  · exact Board.shut_of_noneBeforeEi settled.waiting
  · exact Board.noneBeforeEi_of_shut settled.linked

/-- A restart of a machine just switched on. -/
theorem reset_quiet_powerOn :
    ((withFile []).perform (.reset false)).1.pc = 0 ∧
      ((withFile []).perform (.reset false)).1.board.NoneBeforeEi :=
  (reset_quiet_iff (withFile []) (.reset false) (.nil _) rfl).mpr ⟨rfl, Or.inl rfl⟩

/-- A memory of `NOP`s but for an `EI` at `0100h`, where the processor stands. -/
def beforeEi : Board Unit :=
  let board := Board.powerOn () []
  { board with
    machine := { board.machine with
      memory := board.machine.memory.write 0x0100 0xfb false
      cpu := { board.machine.cpu with pc := 0x0100 } } }

/-- The `EI` and a `NOP` are executed, and the machine is restarted. The `NOP`s at zero are then
interrupted by the first frame signal. -/
theorem restart_interrupted :
    let target := { withFile [] with board := (Board.singleStep · true)^[2] beforeEi }
    let restarted := (target.perform (.reset false)).1.board
    restarted.machine.cpu.pc = 0 ∧
      (∀ i < 9, decode ((Board.singleStep · true)^[i] restarted).machine.opcode = .nop) ∧
      ((Board.singleStep · true)^[9] restarted).acceptsInterrupt = true := by
  decide

end DebugAdapter

end VectorDebugger

import VectorDebugger.Machine.Board
import VectorDebugger.Library.Transition

/-!
# Beam time

How far the beam moves. A fill of `4 t` clocks moves it by `4 t` pixels around the frame;
the end-of-frame mark, once set, stays set until the filler is reset; and clocks are carried
over only when it is set. From this a frame ends, and `executeFrame` is total.
-/

namespace VectorDebugger

namespace Beam

@[simp] theorem advance_brk_of_brk (beam : Beam) (ended : beam.brk = true) :
    beam.advance.brk = true := by
  unfold advance
  split
  · split
    · rfl
    · exact ended
  · exact ended

theorem clock_brk (beam : Beam) (clk : Nat) : (beam.clock clk).brk = beam.advance.brk := by
  unfold clock
  dsimp only
  split
  · rfl
  · split <;> rfl

theorem clock_position (beam : Beam) (clk : Nat) :
    (beam.clock clk).position = beam.advance.position := by
  unfold clock
  dsimp only
  split
  · rfl
  · split <;> rfl

theorem position_lt (beam : Beam) : beam.position < framePixels := by
  have line := beam.line_lt
  have pixel := beam.pixel_lt
  unfold position framePixels
  omega

theorem position_even (beam : Beam) : beam.position % 2 = 0 := by
  have even := beam.pixel_even
  unfold position
  omega

/-- The beam moves by two pixels, and sets the end-of-frame mark when it comes around. -/
theorem advance_position (beam : Beam) :
    beam.advance.position = (beam.position + 2) % framePixels ∧
      (beam.brk = false → (beam.advance.brk = true ↔ beam.position + 2 = framePixels)) := by
  have line := beam.line_lt
  have pixel := beam.pixel_lt
  have even := beam.pixel_even
  unfold advance position framePixels
  split
  · split
    · refine ⟨by simp; omega, fun running => ?_⟩
      simp only [true_iff]
      omega
    · refine ⟨by simp; omega, fun running => ?_⟩
      simp only [running, Bool.false_eq_true, false_iff]
      omega
  · refine ⟨by simp; omega, fun running => ?_⟩
    simp only [running, Bool.false_eq_true, false_iff]
    omega

end Beam

namespace Raster

variable {δ : Type} [Chips δ]

@[simp] theorem commits_beam (raster : Raster δ) (commitTime commitTimePal : Int) (clk : Nat) :
    (raster.commits commitTime commitTimePal clk).beam = raster.beam := by
  unfold commits
  dsimp only
  split <;> split <;> rfl

@[simp] theorem clock_beam (raster : Raster δ) (commitTime commitTimePal : Int) (clk : Nat) :
    (raster.clock commitTime commitTimePal clk).beam = raster.beam.clock clk := by
  simp [clock]

/-- `passes` passes move the beam by two pixels each. While the frame has not ended nothing is
carried over, and the frame ends only if the passes reach its end. -/
theorem clocks_position (commitTime commitTimePal : Int) (passes : Nat) :
    ∀ (clk : Nat) (raster : Raster δ),
      (clocks commitTime commitTimePal passes clk raster).1.beam.position =
          (raster.beam.position + 2 * passes) % Beam.framePixels ∧
        (raster.beam.brk = true →
          (clocks commitTime commitTimePal passes clk raster).1.beam.brk = true) ∧
        ((clocks commitTime commitTimePal passes clk raster).1.beam.brk = false →
          (clocks commitTime commitTimePal passes clk raster).2 = 0 ∧
            raster.beam.position + 2 * passes < Beam.framePixels) ∧
        (clocks commitTime commitTimePal passes clk raster).2 ≤ 2 * passes := by
  induction passes with
  | zero =>
    intro clk raster
    have bound := raster.beam.position_lt
    unfold clocks
    simp only [Nat.mul_zero, Nat.add_zero, Nat.le_refl, and_true, true_and]
    exact ⟨(Nat.mod_eq_of_lt bound).symm, id, fun _ => bound⟩
  | succ passes inductionHypothesis =>
    intro clk raster
    obtain ⟨position, stays, open', bound⟩ := inductionHypothesis (clk + 2)
      (raster.clock commitTime commitTimePal clk)
    obtain ⟨moved, ends⟩ := raster.beam.advance_position
    have here := raster.beam.position_lt
    have beam := raster.clock_beam commitTime commitTimePal clk
    have place : (raster.clock commitTime commitTimePal clk).beam.position =
        (raster.beam.position + 2) % Beam.framePixels := by
      rw [beam, Beam.clock_position, moved]
    have mark : (raster.clock commitTime commitTimePal clk).beam.brk =
        raster.beam.advance.brk := by
      rw [beam, Beam.clock_brk]
    unfold clocks
    dsimp only
    refine ⟨?_, ?_, ?_, ?_⟩
    · have shift : raster.beam.position + 2 + 2 * passes =
          raster.beam.position + 2 * (passes + 1) := by omega
      rw [position, place, Nat.mod_add_mod, shift]
    · intro ended
      apply stays
      rw [mark]
      exact raster.beam.advance_brk_of_brk ended
    · intro running
      obtain ⟨carried, below⟩ := open' running
      have unmarked : (raster.clock commitTime commitTimePal clk).beam.brk = false := by
        by_contra marked
        rw [stays (by simpa using marked)] at running
        exact Bool.noConfusion running
      have before : raster.beam.brk = false := by
        by_contra marked
        rw [mark, raster.beam.advance_brk_of_brk (by simpa using marked)] at unmarked
        exact Bool.noConfusion unmarked
      have inside : raster.beam.position + 2 ≠ Beam.framePixels := by
        intro reached
        rw [mark, (ends before).mpr reached] at unmarked
        exact Bool.noConfusion unmarked
      rw [place] at below
      refine ⟨by rw [carried, unmarked]; rfl, ?_⟩
      have whole : (raster.beam.position + 2) % Beam.framePixels = raster.beam.position + 2 := by
        apply Nat.mod_eq_of_lt
        have even := raster.beam.position_even
        have size : Beam.framePixels = 239616 := rfl
        omega
      omega
    · split <;> omega

/-- A fill of whole cycles moves the beam by four pixels a cycle. While the frame has not
ended nothing is carried over, and what is carried over is less than the fill. -/
theorem fill1_position (raster : Raster δ) (cycles : Nat) (commitTime commitTimePal : Int) :
    (raster.fill1 (cycles * 4) commitTime commitTimePal).1.beam.position =
        (raster.beam.position + cycles * 4) % Beam.framePixels ∧
      ((raster.fill1 (cycles * 4) commitTime commitTimePal).1.beam.brk = false →
        (raster.fill1 (cycles * 4) commitTime commitTimePal).2 = 0 ∧
          raster.beam.position + cycles * 4 < Beam.framePixels) ∧
      (raster.fill1 (cycles * 4) commitTime commitTimePal).2 ≤ cycles * 4 - 2 := by
  have passes : (cycles * 4 + 1) / 2 = cycles * 2 := by omega
  have doubled : 2 * (cycles * 2) = cycles * 4 := by omega
  obtain ⟨position, _, open', bound⟩ :=
    clocks_position commitTime commitTimePal (cycles * 2) 0 raster
  rw [doubled] at position open' bound
  unfold fill1
  dsimp only
  rw [passes, commits_beam]
  refine ⟨position, fun running => ?_, by omega⟩
  obtain ⟨carried, below⟩ := open' running
  exact ⟨by rw [carried], below⟩

end Raster

namespace Board

variable {δ : Type} [Chips δ]

/-- `v_cycles` of the next instruction. -/
def videoCycles (board : Board δ) : Nat := board.machine.bus.i8080Instruction.2.1

/-- The cycles for which the next instruction draws. -/
def pendingCycles (board : Board δ) : Nat := board.foldLeftover.instrTime + board.videoCycles

omit [Chips δ] in
theorem foldLeftover_instrTime (board : Board δ) :
    board.foldLeftover.instrTime = if board.between = 0 then 0 else board.instrTime := by
  unfold foldLeftover
  by_cases fresh : board.between = 0 <;> by_cases spent : board.instrTime = 0 <;>
    simp [fresh, spent]

omit [Chips δ] in
theorem foldLeftover_eq (board : Board δ) :
    ∃ between instrTime, board.foldLeftover = { board with between, instrTime } := by
  unfold foldLeftover
  split
  · exact ⟨_, _, rfl⟩
  · exact ⟨_, _, rfl⟩

/-- An instruction lasts at least four cycles. -/
theorem four_le_videoCycles (board : Board δ) : 4 ≤ board.videoCycles := by
  have least : ∀ (instr : Instr) (flags : Flags), 4 ≤ (instr.cycles flags).2 := by
    intro instr flags
    cases instr <;> simp only [Instr.cycles] <;> first | omega | (split <;> omega)
  exact least _ _

/-- What the filler works on when it draws the next instruction. -/
def drawn (board : Board δ) : Raster δ where
  beam := board.beam
  io := board.machine.next.io
  memory := board.machine.next.memory

/-- What the machine observes of the drawing of the next instruction, with the clocks spent
after the end of the frame. -/
def drawing (board : Board δ) : Raster δ × Nat :=
  board.drawn.fill1 (board.pendingCycles * 4)
    (commitTime board.machine.opcode board.pendingCycles)
    (commitTimePal board.machine.opcode board.pendingCycles)

/-- The machine after `single_step`, but for the interrupt request. -/
def stepped (board : Board δ) : Machine δ :=
  { board.machine.next with
    io := chipsAfter board.drawing.1.io (board.frameNo > 60) board.pendingCycles
    memory := board.drawing.1.memory }

theorem drawn_io (board : Board δ) : board.drawn.io = board.machine.next.io := by
  dsimp only [drawn]

theorem drawn_memory (board : Board δ) : board.drawn.memory = board.machine.next.memory := by
  dsimp only [drawn]

theorem stepped_cpu (board : Board δ) : board.stepped.cpu = board.machine.next.cpu := by
  dsimp only [stepped]

theorem stepped_inte (board : Board δ) : board.stepped.inte = board.machine.next.inte := by
  dsimp only [stepped]

/-- `irq_carry` and `irq` after `single_step`. -/
def request (board : Board δ) : Bool × Bool :=
  let next := board.machine.next
  interruptRequest board.drawing.1.beam next.cpu.cpuCycles next.irq next.inte board.irqCarry

/-- One `single_step` in terms of what the machine observes of the drawing. -/
theorem singleStep_eq (board : Board δ) (updateScreen : Bool) :
    ∃ between picture palette, 0 < between ∧
      board.singleStep updateScreen =
        { board with
          machine := { board.stepped with irq := board.request.2 }
          beam := board.drawing.1.beam
          picture, palette, between
          instrTime := board.drawing.2 / 4
          lastOpcode := board.machine.opcode
          irqCarry := board.request.1 } := by
  have long : 4 ≤ board.pendingCycles := by
    have least := board.four_le_videoCycles
    unfold pendingCycles
    omega
  obtain ⟨between, instrTime, folded⟩ := board.foldLeftover_eq
  have pending : board.pendingCycles = instrTime + board.videoCycles := by
    unfold pendingCycles
    rw [folded]
  obtain ⟨next, nextEq⟩ : ∃ next, next = board.machine.next := ⟨_, rfl⟩
  obtain ⟨time, timeEq⟩ : ∃ time, time = board.pendingCycles := ⟨_, rfl⟩
  have started : ({ board with between, instrTime } : Board δ).runInstruction =
      { board with
        machine := next, lastOpcode := board.machine.opcode, between, instrTime := time } := by
    rw [timeEq, pending, nextEq]
    rfl
  -- the picture is followed only as far as the machine observes it
  obtain ⟨screen, drew⟩ : ∃ screen, screen =
      ({ board with
          machine := next, lastOpcode := board.machine.opcode
          between, instrTime := time } : Board δ).screen.fill1
        (time * 4) (commitTime board.machine.opcode time)
        (commitTimePal board.machine.opcode time) updateScreen := ⟨_, rfl⟩
  have drawn : ({ beam := board.beam, io := next.io, memory := next.memory } : Raster δ) =
      board.drawn := by
    rw [nextEq]
    dsimp only [Board.drawn]
  obtain ⟨raster, extra⟩ : screen.1.raster = board.drawing.1 ∧ screen.2 = board.drawing.2 := by
    rw [drew, drawing, ← drawn, ← timeEq]
    exact Screen.raster_fill1 ..
  have bound : board.drawing.2 ≤ board.pendingCycles * 4 - 2 :=
    (board.drawn.fill1_position board.pendingCycles _ _).2.2
  refine ⟨between + time - screen.2 / 4, screen.1.picture, screen.1.palette, by omega, ?_⟩
  have beam : screen.1.beam = board.drawing.1.beam := congrArg Raster.beam raster
  have io : screen.1.io = board.drawing.1.io := congrArg Raster.io raster
  have memory : screen.1.memory = board.drawing.1.memory := congrArg Raster.memory raster
  unfold singleStep stepped request
  dsimp only
  rw [folded, started]
  unfold fill
  dsimp only
  rw [← drew, ← beam, ← io, ← memory, ← extra, ← nextEq, ← timeEq]
  rfl

/-- What `single_step` does to each part of the board but the picture. -/
structure StepOf (board after : Board δ) : Prop where
  /-- The machine. -/
  machine : after.machine = { board.stepped with irq := board.request.2 }
  /-- The beam. -/
  beam : after.beam = board.drawing.1.beam
  /-- Cycles spent after the end of the frame are kept. -/
  instrTime : after.instrTime = board.drawing.2 / 4
  /-- Time has passed in the frame. -/
  between : 0 < after.between
  /-- The opcode. -/
  lastOpcode : after.lastOpcode = board.machine.opcode
  /-- An interrupt raised while the processor waits. -/
  irqCarry : after.irqCarry = board.request.1
  /-- The frame counter is left alone. -/
  frameNo : after.frameNo = board.frameNo
  /-- So is the debugger state. -/
  debugging : after.debugging = board.debugging
  /-- So is the debugger state. -/
  debuggerInterrupt : after.debuggerInterrupt = board.debuggerInterrupt
  /-- So are the breakpoints. -/
  breakpoints : after.breakpoints = board.breakpoints

theorem singleStep_stepOf (board : Board δ) (updateScreen : Bool) :
    board.StepOf (board.singleStep updateScreen) := by
  obtain ⟨between, picture, palette, positive, done⟩ := board.singleStep_eq updateScreen
  constructor <;> rw [done]
  exact positive

/-- One `single_step`: the processor executes its instruction, and the beam moves by four
pixels for each pending cycle. Leftover cycles mean that the frame has ended. -/
theorem singleStep_spec (board : Board δ) (updateScreen : Bool) :
    (board.singleStep updateScreen).machine.cpu = board.machine.next.cpu ∧
      (board.singleStep updateScreen).beam.position =
        (board.beam.position + board.pendingCycles * 4) % Beam.framePixels ∧
      ((board.singleStep updateScreen).beam.brk = false →
        (board.singleStep updateScreen).instrTime = 0 ∧
          board.beam.position + board.pendingCycles * 4 < Beam.framePixels) ∧
      0 < (board.singleStep updateScreen).between := by
  have after := board.singleStep_stepOf updateScreen
  obtain ⟨position, carried, _⟩ := board.drawn.fill1_position board.pendingCycles
    (commitTime board.machine.opcode board.pendingCycles)
    (commitTimePal board.machine.opcode board.pendingCycles)
  rw [after.machine, after.beam, after.instrTime]
  refine ⟨board.stepped_cpu, position, fun open' => ?_, after.between⟩
  obtain ⟨spent, below⟩ := carried open'
  have nothing : board.drawing.2 = 0 := spent
  exact ⟨by rw [nothing], below⟩

/-- Accepting an interrupt leaves the beam, the frame counter and the debugger state alone. -/
theorem beginIteration_spec (board : Board δ) :
    board.beginIteration.beam = { board.beam with irq := false } ∧
      board.beginIteration.frameNo = board.frameNo ∧
      board.beginIteration.debugging = board.debugging ∧
      board.beginIteration.debuggerInterrupt = board.debuggerInterrupt ∧
      board.beginIteration.breakpoints = board.breakpoints := by
  unfold beginIteration clearFillerIrq checkInterrupt acceptInterrupt
  dsimp only
  split
  · split <;> exact ⟨rfl, rfl, rfl, rfl, rfl⟩
  · exact ⟨rfl, rfl, rfl, rfl, rfl⟩

theorem frameLoop_isSome (updateScreen : Bool) (fuel : Nat) :
    ∀ board : Board δ, (board.beam.brk = true ∧ 1 ≤ fuel ∨
      (Beam.framePixels - board.beam.position) / 16 + 2 ≤ fuel) →
      (board.frameLoop updateScreen fuel).isSome = true := by
  induction fuel with
  | zero =>
    intro board enough
    omega
  | succ fuel inductionHypothesis =>
    intro board enough
    unfold frameLoop
    dsimp only
    split
    · rfl
    · rename_i running
      simp only [Bool.or_eq_true, not_or, Bool.not_eq_true] at running
      split
      · rfl
      · rw [Option.isSome_map]
        apply inductionHypothesis
        obtain ⟨beam, _⟩ := board.beginIteration_spec
        obtain ⟨_, position, open', _⟩ := board.beginIteration.singleStep_spec updateScreen
        have place : board.beginIteration.beam.position = board.beam.position := by
          rw [beam]
          rfl
        have long := board.beginIteration.four_le_videoCycles
        have pending : board.beginIteration.videoCycles ≤ board.beginIteration.pendingCycles :=
          Nat.le_add_left ..
        simp only [running.1, Bool.false_eq_true, false_and, false_or] at enough
        by_cases ended : (board.beginIteration.singleStep updateScreen).beam.brk = true
        · left
          exact ⟨ended, by omega⟩
        · right
          obtain ⟨_, below⟩ := open' (by simpa using ended)
          rw [Nat.mod_eq_of_lt below] at position
          rw [place] at position below
          rw [position]
          omega

/-- A frame always ends. -/
theorem executeFrame_isSome (board : Board δ) (updateScreen : Bool) :
    (board.executeFrame updateScreen).isSome = true := by
  unfold executeFrame
  split
  · rfl
  · apply frameLoop_isSome
    right
    unfold frameFuel
    have size : Beam.framePixels = 239616 := rfl
    omega

/-- One pass of the loop of `execute_frame` with no breakpoint in sight, continued into the next
frame when the beam has ended one. -/
def iteration (board : Board δ) (updateScreen : Bool) : Board δ :=
  let entered := if board.beam.brk then board.startFrame else board
  entered.beginIteration.singleStep updateScreen

end Board

end VectorDebugger

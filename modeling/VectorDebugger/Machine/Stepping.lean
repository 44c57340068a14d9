import VectorDebugger.Machine.BeamTime

/-!
# Stepping and running

`single_step` called on its own against the loop of `execute_frame`. The loop does two
things that stepping does not: it clears the filler's interrupt signal before every
instruction, which only the interrupt request can feel, and it sets the filler up again at
the end of a frame. With interrupts off the first makes no difference to the processor, so
the two agree until a step starts past the end of a frame.
-/

namespace VectorDebugger

/-- A bus with the interrupt request taken away. -/
def Bus.calm {δ : Type} (bus : Bus δ) : Bus δ := { bus with irq := false }

/-- A machine with the interrupt request taken away. -/
def Machine.calm {δ : Type} (machine : Machine δ) : Machine δ := { machine with irq := false }

/-- A beam with the interrupt signal taken away. -/
def Beam.calm (beam : Beam) : Beam := { beam with irq := false, irqClk := 0 }

namespace Bus

variable {δ : Type} [Chips δ]

/-- No instruction reads the interrupt request. -/
theorem exec_irq (bus : Bus δ) (instr : Instr) (irq : Bool) :
    ∃ irq', ({ bus with irq } : Bus δ).exec instr = { bus.exec instr with irq := irq' } := by
  cases instr with
  | rcc cc | jcc cc | ccc cc =>
    unfold exec
    dsimp only
    split <;> exact ⟨_, rfl⟩
  | _ => exact ⟨_, rfl⟩

/-- Two buses that differ in the interrupt request only execute an instruction alike. -/
theorem exec_calm {bus other : Bus δ} (same : bus.calm = other.calm) (instr : Instr) :
    (bus.exec instr).calm = (other.exec instr).calm := by
  have erase : ∀ bus : Bus δ, (bus.exec instr).calm = (bus.calm.exec instr).calm := by
    intro bus
    obtain ⟨irq', changed⟩ := bus.calm.exec_irq instr bus.irq
    have whole : ({ bus.calm with irq := bus.irq } : Bus δ) = bus := rfl
    rw [whole] at changed
    rw [changed]
    rfl
  rw [erase bus, same, ← erase other]

omit [Chips δ] in
theorem countdown_calm (bus : Bus δ) : bus.countdown.calm = bus.calm.countdown.calm := by
  have calmed : bus.calm.cpu = bus.cpu := rfl
  unfold countdown
  dsimp only [setCpu]
  rw [calmed]
  split
  · rfl
  · split <;> rfl

end Bus

namespace Machine

variable {δ : Type} [Chips δ]

/-- No interrupt is accepted before an `EI`. -/
structure InterruptsOff (machine : Machine δ) : Prop where
  /-- No `EI` is waiting. -/
  pending : machine.cpu.eiPending = 0
  /-- The processor ignores requests, or there is none and the board makes none. -/
  blocked : machine.cpu.iff = false ∨ machine.inte = false ∧ machine.irq = false

omit [Chips δ] in
theorem calm_eq {machine other : Machine δ} (same : machine.calm = other.calm) :
    machine.cpu = other.cpu ∧ machine.memory = other.memory ∧ machine.io = other.io ∧
      machine.inte = other.inte :=
  ⟨congrArg (·.cpu) same, congrArg (·.memory) same, congrArg (·.io) same,
    congrArg (·.inte) same⟩

/-- Two machines that differ in the interrupt request only execute an instruction alike. -/
theorem instruction_calm {machine other : Machine δ} (same : machine.calm = other.calm) :
    machine.opcode = other.opcode ∧
      machine.bus.i8080Instruction.2.1 = other.bus.i8080Instruction.2.1 ∧
      machine.next.calm = other.next.calm := by
  obtain ⟨cpu, memory, io, inte⟩ := calm_eq same
  have opcode : machine.opcode = other.opcode := by
    unfold Machine.opcode
    rw [cpu, memory]
  have fetched : machine.bus.fetchByte.2.calm = other.bus.fetchByte.2.calm := by
    simp only [Bus.fetchByte, Bus.readAt, Bus.setCpu, Machine.bus, Bus.calm, cpu, memory, io, inte]
  have executed := Bus.exec_calm fetched (decode machine.opcode)
  have counted : (machine.bus.fetchByte.2.exec (decode machine.opcode)).countdown.calm =
      (other.bus.fetchByte.2.exec (decode machine.opcode)).countdown.calm := by
    rw [Bus.countdown_calm, executed, ← Bus.countdown_calm]
  have flags : machine.bus.fetchByte.2.cpu.flags = other.bus.fetchByte.2.cpu.flags :=
    congrArg (fun bus => bus.cpu.flags) fetched
  refine ⟨opcode, ?_, ?_⟩
  · change ((decode machine.opcode).cycles machine.bus.fetchByte.2.cpu.flags).2 =
      ((decode other.opcode).cycles other.bus.fetchByte.2.cpu.flags).2
    rw [opcode, flags]
  · have ended : ∀ start : Machine δ, start.next.calm =
        (((start.bus.fetchByte.2.exec (decode start.opcode)).countdown.calm).setCpu
          { (start.bus.fetchByte.2.exec (decode start.opcode)).countdown.calm.cpu with
            cpuCycles := ((decode start.opcode).cycles start.bus.fetchByte.2.cpu.flags).1
          }).toMachine := fun start => rfl
    rw [ended, ended, ← opcode, counted, flags]

end Machine

namespace Bus

variable {δ : Type} [Chips δ]

/-- No instruction but `DI` and `EI` touches the interrupt lines. -/
theorem exec_lines (bus : Bus δ) (instr : Instr) (notEi : instr ≠ .ei) (notDi : instr ≠ .di) :
    (bus.exec instr).cpu.eiPending = bus.cpu.eiPending ∧
      (bus.exec instr).cpu.iff = bus.cpu.iff ∧ (bus.exec instr).inte = bus.inte ∧
      (bus.exec instr).irq = bus.irq := by
  cases instr with
  | ei => exact absurd rfl notEi
  | di => exact absurd rfl notDi
  | rcc cc | jcc cc | ccc cc =>
    unfold exec
    dsimp only
    split <;> exact ⟨rfl, rfl, rfl, rfl⟩
  | mvi r | inr r | dcr r | movFromM r => cases r <;> exact ⟨rfl, rfl, rfl, rfl⟩
  | mov dst src => cases dst <;> exact ⟨rfl, rfl, rfl, rfl⟩
  | lxi rp | inx rp | dcx rp | pop rp => cases rp <;> exact ⟨rfl, rfl, rfl, rfl⟩
  | alu op src => cases op <;> exact ⟨rfl, rfl, rfl, rfl⟩
  | aluM op | aluImm op => cases op <;> exact ⟨rfl, rfl, rfl, rfl⟩
  | _ => exact ⟨rfl, rfl, rfl, rfl⟩

/-- An instruction other than `EI` leaves the interrupt lines as they are, or lowers them. -/
theorem exec_interruptsOff (bus : Bus δ) (instr : Instr) (notEi : instr ≠ .ei)
    (off : bus.toMachine.InterruptsOff) : (bus.exec instr).toMachine.InterruptsOff := by
  by_cases di : instr = .di
  · subst di
    exact ⟨rfl, Or.inl rfl⟩
  · obtain ⟨pending, iff', inte, irq⟩ := bus.exec_lines instr notEi di
    refine ⟨pending.trans off.pending, ?_⟩
    rw [iff', inte, irq]
    exact off.blocked

end Bus

namespace Machine

variable {δ : Type} [Chips δ]

/-- The next instruction is `EI`. -/
def enables (machine : Machine δ) : Bool := decode machine.opcode = .ei

theorem next_interruptsOff (machine : Machine δ) (off : machine.InterruptsOff)
    (notEi : machine.enables = false) : machine.next.InterruptsOff := by
  have fetched : machine.bus.fetchByte.2.toMachine.InterruptsOff := ⟨off.pending, off.blocked⟩
  obtain ⟨pending, blocked⟩ := machine.bus.fetchByte.2.exec_interruptsOff
    (decode machine.opcode) (by simpa [enables] using notEi) fetched
  have still : (machine.bus.fetchByte.2.exec (decode machine.opcode)).countdown =
      machine.bus.fetchByte.2.exec (decode machine.opcode) := by
    unfold Bus.countdown
    rw [if_pos pending]
  have ended : machine.next =
      ((machine.bus.fetchByte.2.exec (decode machine.opcode)).countdown.setCpu
        { (machine.bus.fetchByte.2.exec (decode machine.opcode)).countdown.cpu with
          cpuCycles := ((decode machine.opcode).cycles machine.bus.fetchByte.2.cpu.flags).1
        }).toMachine := rfl
  rw [ended, still]
  exact ⟨pending, blocked⟩

end Machine

namespace Beam

theorem calm_eq {beam other : Beam} (same : beam.calm = other.calm) :
    beam.rasterLine = other.rasterLine ∧ beam.rasterPixel = other.rasterPixel ∧
      beam.brk = other.brk ∧ beam.position = other.position :=
  ⟨congrArg (·.rasterLine) same, congrArg (·.rasterPixel) same, congrArg (·.brk) same,
    congrArg (·.position) same⟩

theorem clock_calm {beam other : Beam} (same : beam.calm = other.calm) (clk : Nat) :
    (beam.clock clk).calm = (other.clock clk).calm := by
  have signal : ∀ beam : Beam, (beam.clock clk).calm = beam.advance.calm := by
    intro beam
    unfold clock
    dsimp only
    split
    · rfl
    · split <;> rfl
  have moved : ∀ beam : Beam, beam.advance.calm = beam.calm.advance := by
    intro beam
    have pixel : beam.calm.rasterPixel = beam.rasterPixel := rfl
    have line : beam.calm.rasterLine = beam.rasterLine := rfl
    unfold advance
    simp only [pixel, line]
    split
    · split <;> rfl
    · rfl
  rw [signal, signal, moved, moved, same]

end Beam

/-- A raster with the interrupt signal taken away. -/
def Raster.calm {δ : Type} (raster : Raster δ) : Raster δ :=
  { raster with beam := raster.beam.calm }

namespace Raster

variable {δ : Type} [Chips δ]

omit [Chips δ] in
theorem calm_eq {raster other : Raster δ} (same : raster.calm = other.calm) :
    raster.beam.calm = other.beam.calm ∧ raster.io = other.io ∧ raster.memory = other.memory :=
  ⟨congrArg (·.beam) same, congrArg (·.io) same, congrArg (·.memory) same⟩

omit [Chips δ] in
theorem calm_of_eq {raster other : Raster δ} (beam : raster.beam.calm = other.beam.calm)
    (io : raster.io = other.io) (memory : raster.memory = other.memory) :
    raster.calm = other.calm := by
  unfold calm
  rw [beam, io, memory]

theorem commit_calm {raster other : Raster δ} (same : raster.calm = other.calm) :
    raster.commit.calm = other.commit.calm := by
  obtain ⟨beam, io, memory⟩ := calm_eq same
  have done : raster.io.commit raster.memory = other.io.commit other.memory := by
    rw [io, memory]
  exact calm_of_eq beam (congrArg Commit.io done) (congrArg Commit.memory done)

omit [Chips δ] in
theorem commitPalette_calm {raster other : Raster δ} (same : raster.calm = other.calm) :
    raster.commitPalette.calm = other.commitPalette.calm := by
  obtain ⟨beam, io, memory⟩ := calm_eq same
  exact calm_of_eq beam (congrArg (·.commitPalette.2) io) memory

theorem commits_calm {raster other : Raster δ} (same : raster.calm = other.calm)
    (commitTime commitTimePal : Int) (clk : Nat) :
    (raster.commits commitTime commitTimePal clk).calm =
      (other.commits commitTime commitTimePal clk).calm := by
  unfold commits
  dsimp only
  split <;> split <;>
    first
      | exact commitPalette_calm (commit_calm same)
      | exact commit_calm same
      | exact commitPalette_calm same
      | exact same

theorem clock_calm {raster other : Raster δ} (same : raster.calm = other.calm)
    (commitTime commitTimePal : Int) (clk : Nat) :
    (raster.clock commitTime commitTimePal clk).calm =
      (other.clock commitTime commitTimePal clk).calm := by
  obtain ⟨beam, io, memory⟩ := calm_eq (commits_calm same commitTime commitTimePal clk)
  exact calm_of_eq (Beam.clock_calm beam clk) io memory

theorem clocks_calm (commitTime commitTimePal : Int) (passes : Nat) :
    ∀ (clk : Nat) {raster other : Raster δ}, raster.calm = other.calm →
      (clocks commitTime commitTimePal passes clk raster).1.calm =
          (clocks commitTime commitTimePal passes clk other).1.calm ∧
        (clocks commitTime commitTimePal passes clk raster).2 =
          (clocks commitTime commitTimePal passes clk other).2 := by
  induction passes with
  | zero =>
    intro clk raster other same
    exact ⟨same, rfl⟩
  | succ passes inductionHypothesis =>
    intro clk raster other same
    have moved := clock_calm same commitTime commitTimePal clk
    obtain ⟨rest, count⟩ := inductionHypothesis (clk + 2) moved
    have brk : (raster.clock commitTime commitTimePal clk).beam.brk =
        (other.clock commitTime commitTimePal clk).beam.brk :=
      (Beam.calm_eq (calm_eq moved).1).2.2.1
    unfold clocks
    dsimp only
    rw [brk, count]
    exact ⟨rest, rfl⟩

/-- A fill does not read the interrupt signal it may raise. -/
theorem fill1_calm {raster other : Raster δ} (same : raster.calm = other.calm)
    (total : Nat) (commitTime commitTimePal : Int) :
    (raster.fill1 total commitTime commitTimePal).1.calm =
        (other.fill1 total commitTime commitTimePal).1.calm ∧
      (raster.fill1 total commitTime commitTimePal).2 =
        (other.fill1 total commitTime commitTimePal).2 := by
  obtain ⟨drawn, count⟩ := clocks_calm commitTime commitTimePal ((total + 1) / 2) 0 same
  unfold fill1
  dsimp only
  rw [count]
  exact ⟨commits_calm drawn .., rfl⟩

end Raster

namespace Board

variable {δ : Type} [Chips δ]

/-- Two boards that differ at most in the interrupt request and signal, the picture and the
debugger state. -/
structure SameButIrq (board other : Board δ) : Prop where
  /-- Same machine but for the request. -/
  machine : board.machine.calm = other.machine.calm
  /-- Same beam but for the signal. -/
  beam : board.beam.calm = other.beam.calm
  /-- Same pending cycles. -/
  leftover : board.foldLeftover.instrTime = other.foldLeftover.instrTime
  /-- Same frame. -/
  frameNo : board.frameNo = other.frameNo

/-- `single_step` keeps two such boards alike, and its instruction takes as long on both. -/
theorem singleStep_sameButIrq {board other : Board δ} (same : board.SameButIrq other)
    (updateScreen : Bool) :
    (board.singleStep updateScreen).SameButIrq (other.singleStep updateScreen) ∧
      board.videoCycles = other.videoCycles := by
  obtain ⟨machine, beam, leftover, frameNo⟩ := same
  obtain ⟨opcode, time, next⟩ := Machine.instruction_calm machine
  obtain ⟨cpu, memory, io, inte⟩ := Machine.calm_eq next
  have cycles : board.videoCycles = other.videoCycles := time
  have pending : board.pendingCycles = other.pendingCycles := by
    unfold pendingCycles
    rw [leftover, cycles]
  have drawn : board.drawn.calm = other.drawn.calm := by
    apply Raster.calm_of_eq beam
    · rw [drawn_io, drawn_io, io]
    · rw [drawn_memory, drawn_memory, memory]
  obtain ⟨raster, extra⟩ := Raster.fill1_calm drawn (board.pendingCycles * 4)
    (commitTime board.machine.opcode board.pendingCycles)
    (commitTimePal board.machine.opcode board.pendingCycles)
  have drawing : board.drawing.1.calm = other.drawing.1.calm ∧
      board.drawing.2 = other.drawing.2 := by
    rw [opcode, pending] at raster extra
    unfold Board.drawing
    rw [opcode, pending]
    exact ⟨raster, extra⟩
  obtain ⟨beam', io', memory'⟩ := Raster.calm_eq drawing.1
  have after := board.singleStep_stepOf updateScreen
  have after' := other.singleStep_stepOf updateScreen
  refine ⟨⟨?_, ?_, ?_, ?_⟩, cycles⟩
  · rw [after.machine, after'.machine]
    unfold Machine.calm stepped
    dsimp only
    rw [cpu, inte, io', memory', frameNo, pending]
  · rw [after.beam, after'.beam, beam']
  · have passed := after.between
    have passed' := after'.between
    rw [foldLeftover_instrTime, foldLeftover_instrTime, if_neg (by omega), if_neg (by omega),
      after.instrTime, after'.instrTime, drawing.2]
  · rw [after.frameNo, after'.frameNo, frameNo]

/-- With interrupts off the loop of `execute_frame` accepts none. -/
theorem beginIteration_of_off (board : Board δ) (off : board.machine.InterruptsOff) :
    board.beginIteration = board.clearFillerIrq := by
  have refused : board.acceptsInterrupt = false := by
    unfold acceptsInterrupt
    rcases off.blocked with masked | ⟨_, calm⟩
    · rw [masked, Bool.and_false]
    · rw [calm, Bool.false_and]
  unfold beginIteration checkInterrupt
  rw [refused, if_neg Bool.false_ne_true]

/-- `single_step` keeps interrupts off as long as it executes no `EI`. -/
theorem singleStep_interruptsOff (board : Board δ) (updateScreen : Bool)
    (off : board.machine.InterruptsOff) (notEi : board.machine.enables = false) :
    (board.singleStep updateScreen).machine.InterruptsOff := by
  obtain ⟨pending, blocked⟩ := board.machine.next_interruptsOff off notEi
  have after := board.singleStep_stepOf updateScreen
  rw [after.machine]
  constructor
  · change board.stepped.cpu.eiPending = 0
    rw [stepped_cpu, pending]
  · change board.stepped.cpu.iff = false ∨ board.stepped.inte = false ∧ board.request.2 = false
    rw [stepped_cpu, stepped_inte]
    refine blocked.imp_right fun ⟨lowered, calm⟩ => ⟨lowered, ?_⟩
    unfold request interruptRequest
    dsimp only
    rw [lowered, calm]
    split
    · split <;> rfl
    · split <;> rfl

/-- One pass of the loop against one `single_step`, while the frame has not ended. -/
theorem iteration_sameButIrq {board other : Board δ} (updateScreen : Bool)
    (same : board.SameButIrq other) (off : other.machine.InterruptsOff)
    (running : board.beam.brk = false) :
    (board.singleStep updateScreen).SameButIrq (other.iteration updateScreen) ∧
      board.videoCycles = other.beginIteration.videoCycles := by
  have unended : other.beam.brk = false := by
    rw [← (Beam.calm_eq same.beam).2.2.1, running]
  have begun := other.beginIteration_of_off off
  have entered : other.iteration updateScreen =
      other.beginIteration.singleStep updateScreen := by
    unfold iteration
    rw [unended]
    rfl
  have like : board.SameButIrq other.beginIteration := by
    rw [begun]
    refine ⟨same.machine, same.beam, same.leftover.trans ?_, same.frameNo⟩
    simp only [foldLeftover_instrTime]
    rfl
  rw [entered]
  exact singleStep_sameButIrq like updateScreen

/-- The beam has not passed the end of a frame since the filler was last set up. -/
def OnFrame (board : Board δ) : Prop := board.beam.brk = false

/-- No cycles are waiting to be drawn with the next instruction. -/
def NothingPending (board : Board δ) : Prop := board.instrTime = 0 ∨ board.between = 0

/-- The relation between the two paths, kept by one instruction of each. -/
theorem stepping_related (board : Board δ) (updateScreen : Bool) (count : Nat)
    (off : board.machine.InterruptsOff)
    (notEi : ∀ i < count, ((singleStep · updateScreen)^[i] board).machine.enables = false)
    (onFrame : ∀ i < count, ((singleStep · updateScreen)^[i] board).OnFrame) :
    ((singleStep · updateScreen)^[count] board).SameButIrq
        ((iteration · updateScreen)^[count] board) ∧
      ((iteration · updateScreen)^[count] board).machine.InterruptsOff := by
  have step : ∀ state image : Board δ,
      state.SameButIrq image ∧ image.machine.InterruptsOff →
      state.OnFrame ∧ state.machine.enables = false →
      (state.singleStep updateScreen).SameButIrq (image.iteration updateScreen) ∧
        (image.iteration updateScreen).machine.InterruptsOff := by
    rintro state image ⟨same, quiet⟩ ⟨running, notEi⟩
    refine ⟨(iteration_sameButIrq updateScreen same quiet running).1, ?_⟩
    have unended : image.beam.brk = false := by
      rw [← (Beam.calm_eq same.beam).2.2.1]
      exact running
    have opcode := (Machine.instruction_calm same.machine).1
    have begun := image.beginIteration_of_off quiet
    have entered : image.iteration updateScreen =
        image.beginIteration.singleStep updateScreen := by
      unfold iteration
      rw [unended]
      rfl
    rw [entered, begun]
    apply singleStep_interruptsOff image.clearFillerIrq updateScreen quiet
    change image.machine.enables = false
    unfold Machine.enables at notEi ⊢
    rw [← notEi, opcode]
  exact Transition.iterate_related step count ⟨⟨rfl, rfl, rfl, rfl⟩, off⟩ fun i below =>
    ⟨onFrame i below, notEi i below⟩

theorem singleStep_position (board : Board δ) (updateScreen : Bool)
    (nothing : board.NothingPending) :
    (board.singleStep updateScreen).beam.position =
      (board.beam.position + 4 * board.videoCycles) % Beam.framePixels := by
  have none : board.foldLeftover.instrTime = 0 := by
    rw [foldLeftover_instrTime]
    rcases nothing with spent | fresh
    · rw [spent, ite_self]
    · rw [if_pos fresh]
  have pending : board.pendingCycles * 4 = 4 * board.videoCycles := by
    unfold pendingCycles
    rw [none]
    omega
  rw [(board.singleStep_spec updateScreen).2.1, pending]

/-- Stepping equals running while no step starts past the end of a frame: `count` calls of
`single_step` leave the processor, the memory and the beam where `count` passes of the loop of
`execute_frame` do, and on both paths each instruction advances the beam by four pixels for
each of its video cycles. -/
theorem singleStep_eq_iteration (board : Board δ) (updateScreen : Bool) (count : Nat)
    (off : board.machine.InterruptsOff)
    (notEi : ∀ i < count, ((singleStep · updateScreen)^[i] board).machine.enables = false)
    (nothing : board.NothingPending)
    (onFrame : ∀ i < count, ((singleStep · updateScreen)^[i] board).OnFrame) :
    let stepped (i : Nat) := (singleStep · updateScreen)^[i] board
    let ran (i : Nat) := (iteration · updateScreen)^[i] board
    (stepped count).machine.cpu = (ran count).machine.cpu ∧
      (stepped count).machine.memory = (ran count).machine.memory ∧
      (stepped count).beam.rasterLine = (ran count).beam.rasterLine ∧
      (stepped count).beam.rasterPixel = (ran count).beam.rasterPixel ∧
      ∀ i < count,
        (stepped (i + 1)).beam.position =
            ((stepped i).beam.position + 4 * (stepped i).videoCycles) % Beam.framePixels ∧
          (ran (i + 1)).beam.position =
            ((ran i).beam.position + 4 * (stepped i).videoCycles) % Beam.framePixels := by
  intro stepped ran
  have related : ∀ i ≤ count, (stepped i).SameButIrq (ran i) := fun i within =>
    (stepping_related board updateScreen i off
      (fun j below => notEi j (Nat.lt_of_lt_of_le below within))
      fun j below => onFrame j (Nat.lt_of_lt_of_le below within)).1
  have pending : ∀ i < count, (stepped i).NothingPending := by
    intro i below
    cases i with
    | zero => exact nothing
    | succ i =>
      left
      have after : stepped (i + 1) = (stepped i).singleStep updateScreen :=
        Function.iterate_succ_apply' ..
      have running := onFrame (i + 1) below
      rw [show (singleStep · updateScreen)^[i + 1] board = stepped (i + 1) from rfl,
        after] at running
      rw [after]
      exact (((stepped i).singleStep_spec updateScreen).2.2.1 running).1
  have place : ∀ i ≤ count, (stepped i).beam.position = (ran i).beam.position :=
    fun i within => (Beam.calm_eq (related i within).beam).2.2.2
  obtain ⟨cpu, memory, _, _⟩ := Machine.calm_eq (related count (Nat.le_refl _)).machine
  obtain ⟨line, pixel, _, _⟩ := Beam.calm_eq (related count (Nat.le_refl _)).beam
  refine ⟨cpu, memory, line, pixel, ?_⟩
  intro i below
  have advanced : (stepped (i + 1)).beam.position =
      ((stepped i).beam.position + 4 * (stepped i).videoCycles) % Beam.framePixels := by
    have after : stepped (i + 1) = (stepped i).singleStep updateScreen :=
      Function.iterate_succ_apply' ..
    rw [after]
    exact (stepped i).singleStep_position updateScreen (pending i below)
  refine ⟨advanced, ?_⟩
  rw [← place (i + 1) below, ← place i (Nat.le_of_lt below)]
  exact advanced

/-- The conditions of `singleStep_eq_iteration` hold of two instructions from power on. -/
theorem singleStep_eq_iteration_powerOn :
    let stepped (i : Nat) := (singleStep · true)^[i] (powerOn () [0x3e, 0x42])
    let ran (i : Nat) := (iteration · true)^[i] (powerOn () [0x3e, 0x42])
    (stepped 2).machine.cpu = (ran 2).machine.cpu ∧
      (stepped 2).machine.memory = (ran 2).machine.memory ∧
      (stepped 2).beam.rasterLine = (ran 2).beam.rasterLine ∧
      (stepped 2).beam.rasterPixel = (ran 2).beam.rasterPixel ∧
      ∀ i < 2,
        (stepped (i + 1)).beam.position =
            ((stepped i).beam.position + 4 * (stepped i).videoCycles) % Beam.framePixels ∧
          (ran (i + 1)).beam.position =
            ((ran i).beam.position + 4 * (stepped i).videoCycles) % Beam.framePixels :=
  singleStep_eq_iteration (powerOn () [0x3e, 0x42]) true 2 ⟨rfl, Or.inl rfl⟩ (by decide +kernel)
    (Or.inl rfl) (by unfold OnFrame; decide +kernel)

/-- A board whose beam is sixteen pixels before the end of the frame, over empty memory. -/
def lastPixels : Board Unit :=
  { powerOn () [] with
    beam :=
      { rasterLine := 311, rasterPixel := 752, brk := false, irq := false, irqClk := 0
        line_lt := by decide, pixel_lt := by decide, pixel_even := by decide }
    between := 59900 }

/-- Three `NOP` instructions over the end of a frame: stepping moves the beam by 60 pixels, the
loop of `execute_frame` by 48. -/
theorem stepping_overruns_frame :
    lastPixels.machine.InterruptsOff ∧ lastPixels.NothingPending ∧
      (∀ i < 3, ((singleStep · true)^[i] lastPixels).machine.opcode = 0x00) ∧
      ((singleStep · true)^[3] lastPixels).beam.position = 44 ∧
      ((iteration · true)^[3] lastPixels).beam.position = 32 := by
  refine ⟨⟨rfl, Or.inl rfl⟩, Or.inl rfl, ?_⟩
  decide +kernel

end Board

end VectorDebugger

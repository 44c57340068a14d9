import VectorDebugger.Debugger.DebugAdapter
import VectorDebugger.Machine.PortWrites

/-!
# The order of port writes

The processor and the debugger share one output latch, and only an `OUT` drives its commits. A
trace of latched and applied writes says what becomes of each: it is in order exactly when the
debugger writes no port and no `OUT` addresses a port whose colour has to wait.
-/

namespace VectorDebugger

namespace Board

variable {δ : Type} [Chips δ]

/-- The steps of a run that matter to port writes. -/
inductive PortLabel
  /-- `single_step`, with what it did to writes. -/
  | instruction (events : List PortEvent)
  /-- A port write of the debugger. -/
  | debugger (port w8 : Byte)
  /-- Anything that leaves the latch and the waiting colour alone. -/
  | elsewhere

/-- What a step does to writes. -/
def PortLabel.events : PortLabel → List PortEvent
  | .instruction events => events
  | .debugger port w8 => [.latched port w8]
  | .elsewhere => []

/-- No debugger write, and no `OUT` to a delayed port. -/
def PortLabel.Direct : PortLabel → Prop
  | .instruction events => ∀ port w8, .latched port w8 ∈ events → ¬ DelayedPort port
  | .debugger .. => False
  | .elsewhere => True

/-- One step of the machine, a write of the debugger, or anything else: interrupts, the frame,
debugger writes of memory and registers. -/
inductive PortStep : Board δ → PortLabel → Board δ → Prop
  /-- `single_step`. -/
  | step (board : Board δ) (updateScreen : Bool) :
    PortStep board (.instruction (board.portEvents updateScreen)) (board.singleStep updateScreen)
  /-- `DebugAdapter::writeIoPort`. -/
  | write (board : Board δ) (port w8 : Byte) :
    PortStep board (.debugger port w8) (board.output port w8)
  /-- Anything else. -/
  | elsewhere (board other : Board δ)
      (outport : other.machine.io.outport = board.machine.io.outport)
      (palettebyte : other.machine.io.palettebyte = board.machine.io.palettebyte) :
    PortStep board .elsewhere other

/-- Every write of a trace reached its device once, in order, and before the next was latched. -/
def InOrder (trace : List PortEvent) : Prop :=
  ∃ writes : List (Byte × Byte), trace = writes.flatMap fun write =>
    [.latched write.1 write.2, .applied (deviceWrite write.1 write.2)]

theorem inOrder_cons (port w8 : Byte) (rest : List PortEvent) :
    InOrder (.latched port w8 :: .applied (deviceWrite port w8) :: rest) ↔ InOrder rest := by
  constructor
  · rintro ⟨writes, split'⟩
    cases writes with
    | nil => cases split'
    | cons write writes =>
      simp only [List.flatMap_cons, List.cons_append, List.nil_append, List.cons.injEq] at split'
      exact ⟨writes, split'.2.2⟩
  · rintro ⟨writes, rfl⟩
    exact ⟨(port, w8) :: writes, rfl⟩

/-- A write that is latched and not applied at once breaks the order. -/
theorem not_inOrder {port w8 : Byte} {rest : List PortEvent}
    (unapplied : ∀ write tail, rest ≠ .applied write :: tail) :
    ¬ InOrder (.latched port w8 :: rest) := by
  rintro ⟨writes, split'⟩
  cases writes with
  | nil => cases split'
  | cons write writes =>
    simp only [List.flatMap_cons, List.cons_append, List.nil_append, List.cons.injEq] at split'
    exact unapplied _ _ split'.2

/-- What a run does to writes starts with a latched one, if there is any. -/
theorem run_unapplied {start final : Board δ} {labels : List PortLabel}
    (run : Transition.Run PortStep start labels final) :
    ∀ write tail, labels.flatMap PortLabel.events ≠ .applied write :: tail := by
  induction run with
  | nil state => exact fun write tail => nofun
  | cons step rest inductionHypothesis =>
    rename_i board middle final label labels
    intro write tail
    rw [List.flatMap_cons]
    cases step with
    | step updateScreen =>
      by_cases out : board.machine.opcode = 0xd3
      · rw [PortLabel.events, (board.singleStep_out updateScreen out).2]
        exact nofun
      · rw [PortLabel.events, (board.singleStep_other updateScreen out).2]
        exact inductionHypothesis write tail
    | write port w8 => exact nofun
    | elsewhere => exact inductionHypothesis write tail

/-- From a clear latch, every write of a run takes effect once, in order and before the next is
latched, exactly when the debugger writes no port and no `OUT` addresses a delayed port. -/
theorem port_writes_iff {start final : Board δ} {labels : List PortLabel}
    (run : Transition.Run PortStep start labels final) (clear : start.Clear) :
    InOrder (labels.flatMap PortLabel.events) ↔ ∀ label ∈ labels, label.Direct := by
  induction run with
  | nil state => exact iff_of_true ⟨[], rfl⟩ nofun
  | cons step rest inductionHypothesis =>
    rename_i board middle final label labels
    have unapplied := run_unapplied rest
    rw [List.flatMap_cons, List.forall_mem_cons]
    cases step with
    | elsewhere other outport palettebyte =>
      have next := inductionHypothesis
        ⟨outport.trans clear.outport, palettebyte.trans clear.palettebyte⟩
      exact next.trans (and_iff_right trivial).symm
    | write port w8 =>
      exact iff_of_false (not_inOrder unapplied) (fun both => both.1)
    | step updateScreen =>
      by_cases out : board.machine.opcode = 0xd3
      · obtain ⟨outport, palettebyte, events⟩ :=
          board.out_of_idle updateScreen out clear.palettebyte
        by_cases delayed : DelayedPort board.machine.outWrite.1
        · rw [if_pos delayed] at events
          rw [PortLabel.events, PortLabel.Direct, events]
          refine iff_of_false (not_inOrder unapplied) (fun both => ?_)
          exact both.1 _ _ List.mem_cons_self delayed
        · rw [if_neg delayed] at events palettebyte
          have direct : ∀ port w8, PortEvent.latched port w8 ∈
              [PortEvent.latched board.machine.outWrite.1 board.machine.outWrite.2,
                .applied (deviceWrite board.machine.outWrite.1 board.machine.outWrite.2)] →
                  ¬ DelayedPort port := by
            intro port w8 member
            simp only [List.mem_cons, PortEvent.latched.injEq, List.not_mem_nil, or_false,
              reduceCtorEq] at member
            rw [member.1]
            exact delayed
          rw [PortLabel.events, PortLabel.Direct, events]
          refine (inOrder_cons _ _ _).trans ?_
          exact (inductionHypothesis ⟨outport, palettebyte⟩).trans (and_iff_right direct).symm
      · obtain ⟨outport, palettebyte⟩ := board.latch_of_other updateScreen out
        rw [PortLabel.events, PortLabel.Direct, (board.singleStep_other updateScreen out).2]
        have next := inductionHypothesis
          ⟨outport.trans clear.outport, palettebyte.trans clear.palettebyte⟩
        exact next.trans (and_iff_right fun port w8 member => nomatch member).symm

/-- A machine whose program starts with `OUT 02h`. -/
def outProgram : Board Unit :=
  { powerOn () [] with
    machine := { Machine.powerOn () [] with
      memory := (Memory.init.write 0 0xd3 false).write 1 0x02 false } }

/-- Its first instruction applies its write at once. -/
theorem port_writes_outProgram :
    InOrder ([PortLabel.instruction (outProgram.portEvents true)].flatMap PortLabel.events) := by
  have out : outProgram.machine.opcode = 0xd3 := by decide
  have events := (outProgram.out_of_idle true out rfl).2.2
  have direct : ¬ DelayedPort outProgram.machine.outWrite.1 := by decide
  rw [if_neg direct] at events
  refine (port_writes_iff (.cons (.step outProgram true) (.nil _)) ⟨rfl, rfl⟩).mpr ?_
  intro label listed
  rw [List.mem_singleton.mp listed, PortLabel.Direct, events]
  intro port w8 member
  simp only [List.mem_cons, PortEvent.latched.injEq, List.not_mem_nil, or_false,
    reduceCtorEq] at member
  rw [member.1]
  exact direct

/-- A debugger write to the scroll register before it is lost: the `OUT` takes its place in the
latch. -/
theorem debugger_write_lost :
    (outProgram.output 0x03 0x55).machine.io.outport = some (0x03, 0x55) ∧
      ((outProgram.output 0x03 0x55).singleStep true).machine.io.outport = none ∧
      ((outProgram.output 0x03 0x55).singleStep true).machine.io.pa = 0xff := by
  decide +kernel

end Board

end VectorDebugger

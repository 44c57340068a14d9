import VectorDebugger.Machine.Stepping

/-!
# Interrupt acceptance

Whether an interrupt is accepted depends on four cells: `IFF` and `EI_PENDING` in the
processor, `inte` and `irq` on the board. They form a small machine of their own, moved by the
instruction executed, by the acknowledge and by the frame signal. The board refines it, so what
holds of every run of the cells holds of every run of the board, whatever the program does and
whenever the frame signal comes.
-/

namespace VectorDebugger

/-- The cells that decide whether an interrupt is accepted. -/
structure InterruptLines where
  /-- `IFF`. -/
  iff : Bool
  /-- `EI_PENDING`. -/
  eiPending : Nat
  /-- `Board::inte`. -/
  inte : Bool
  /-- `Board::irq`. -/
  irq : Bool
deriving DecidableEq, Repr

/-- What an observer of the board sees in a run. -/
inductive InterruptEvent
  /-- `single_step` executed an instruction. -/
  | executed (instr : Instr)
  /-- `check_interrupt` accepted an interrupt. -/
  | accepted
  /-- `check_interrupt` accepted none. -/
  | polled
  /-- Something outside the four cells changed, or the board was reset. -/
  | elsewhere
deriving DecidableEq, Repr

namespace InterruptLines

/-- The effect of an instruction's own case. -/
def exec (lines : InterruptLines) : Instr → InterruptLines
  | .di => { iff := false, eiPending := 0, inte := false, irq := false }
  | .ei => { lines with iff := false, eiPending := 2, inte := true }
  | _ => lines

/-- The `EI_PENDING` countdown. -/
def countdown (lines : InterruptLines) : InterruptLines :=
  if lines.eiPending = 0 then lines
  else if lines.eiPending = 1 then { lines with eiPending := 0, iff := true, inte := true }
  else { lines with eiPending := lines.eiPending - 1 }

/-- One instruction. -/
def execute (lines : InterruptLines) (instr : Instr) : InterruptLines :=
  (lines.exec instr).countdown

/-- `Board::interrupt(false)`. -/
def acknowledge (lines : InterruptLines) : InterruptLines :=
  { lines with inte := false, irq := false }

/-- The frame signal, which raises the request if `inte` lets it through. -/
def request (lines : InterruptLines) (signal : Bool) : InterruptLines :=
  { lines with irq := lines.irq || (lines.inte && signal) }

/-- Whether an interrupt is accepted. -/
def accepts (lines : InterruptLines) : Bool := lines.irq && lines.iff

/-- What the cells keep in step at all times. -/
structure Linked (lines : InterruptLines) : Prop where
  /-- A request is only latched while the processor offers to take one. -/
  request : lines.irq = true → lines.inte = true
  /-- Interrupts are enabled only once no `EI` is waiting. -/
  enabled : lines.iff = true → lines.eiPending = 0

end InterruptLines

/-- How far a program has come in enabling interrupts since it last took one. -/
inductive EiWindow
  /-- No `EI` yet. -/
  | shut
  /-- The last instruction was an `EI`. -/
  | held
  /-- Another instruction has followed the `EI`. -/
  | passed
deriving DecidableEq, Repr

namespace EiWindow

/-- The window after one event. -/
def after (window : EiWindow) : InterruptEvent → EiWindow
  | .executed .ei => .held
  | .executed _ => if window = .held then .passed else window
  | .accepted => .shut
  | .polled | .elsewhere => window

/-- The window after a run. -/
def afterAll (window : EiWindow) (events : List InterruptEvent) : EiWindow :=
  events.foldl after window

@[simp] theorem afterAll_nil (window : EiWindow) : window.afterAll [] = window := rfl

@[simp] theorem afterAll_cons (window : EiWindow) (event : InterruptEvent)
    (events : List InterruptEvent) :
    window.afterAll (event :: events) = (window.after event).afterAll events := rfl

@[simp] theorem afterAll_append (window : EiWindow) (front back : List InterruptEvent) :
    window.afterAll (front ++ back) = (window.afterAll front).afterAll back :=
  List.foldl_append

/-- What the window says of the cells. -/
def Allows (window : EiWindow) (lines : InterruptLines) : Prop :=
  match window with
  | .shut => lines.eiPending = 0 ∧ (lines.iff = false ∨ lines.inte = false)
  | .held => lines.iff = false ∧ lines.eiPending = 1
  | .passed => True

/-- Only an `EI` leads to a window that is held. -/
theorem held_of_ei (events : List InterruptEvent) :
    ∀ window : EiWindow, window ≠ .held → window.afterAll events = .held →
      ∃ before after : List InterruptEvent, events = before ++ .executed .ei :: after := by
  induction events with
  | nil =>
    intro window notHeld held
    exact absurd held notHeld
  | cons event events inductionHypothesis =>
    intro window notHeld held
    by_cases ei : event = .executed .ei
    · exact ⟨[], events, by rw [ei, List.nil_append]⟩
    · have next : window.after event ≠ .held := by
        unfold after
        split
        · exact absurd rfl ei
        · rw [if_neg notHeld]
          exact notHeld
        · exact nofun
        · exact notHeld
        · exact notHeld
      obtain ⟨before, after, split'⟩ := inductionHypothesis _ next held
      exact ⟨event :: before, after, by rw [split', List.cons_append]⟩

/-- Only another instruction after a held window leads to one that has passed. -/
theorem passed_of_other (events : List InterruptEvent) :
    ∀ window : EiWindow, window ≠ .passed → window.afterAll events = .passed →
      ∃ (before : List InterruptEvent) (instr : Instr) (after : List InterruptEvent),
        events = before ++ .executed instr :: after ∧ instr ≠ .ei ∧
          window.afterAll before = .held := by
  induction events with
  | nil =>
    intro window notPassed passed
    exact absurd passed notPassed
  | cons event events inductionHypothesis =>
    intro window notPassed passed
    by_cases now : window.after event = .passed
    · have found : ∃ instr, event = .executed instr ∧ instr ≠ .ei ∧ window = .held := by
        unfold after at now
        split at now
        · exact nomatch now
        · rename_i instr notEi
          refine ⟨instr, rfl, fun same => notEi (by rw [same]), ?_⟩
          by_contra notHeld
          rw [if_neg notHeld] at now
          exact notPassed now
        · exact nomatch now
        · exact absurd now notPassed
        · exact absurd now notPassed
      obtain ⟨instr, isExecuted, notEi, held⟩ := found
      exact ⟨[], instr, events, by rw [isExecuted, List.nil_append], notEi, held⟩
    · obtain ⟨before, instr, after, split', notEi, held⟩ := inductionHypothesis _ now passed
      exact ⟨event :: before, instr, after, by rw [split', List.cons_append], notEi, held⟩

/-- From a shut window to one that has passed there is an `EI` and a later instruction that is
not one. -/
theorem ei_of_passed {events : List InterruptEvent} (passed : shut.afterAll events = .passed) :
    ∃ (before between : List InterruptEvent) (instr : Instr) (after : List InterruptEvent),
      events = before ++ .executed .ei :: (between ++ .executed instr :: after) ∧ instr ≠ .ei := by
  obtain ⟨front, instr, after, split', notEi, held⟩ := passed_of_other events .shut (by decide) passed
  obtain ⟨before, between, inFront⟩ := held_of_ei front .shut (by decide) held
  exact ⟨before, between, instr, after, by rw [split', inFront]; simp, notEi⟩

end EiWindow

namespace InterruptLines

theorem Linked.execute {lines : InterruptLines} (linked : lines.Linked) (instr : Instr) :
    (lines.execute instr).Linked := by
  have exec : (lines.exec instr).Linked := by
    unfold InterruptLines.exec
    split
    · exact ⟨nofun, nofun⟩
    · exact ⟨fun _ => rfl, nofun⟩
    · exact linked
  unfold InterruptLines.execute countdown
  split
  · exact exec
  · split
    · exact ⟨fun _ => rfl, fun _ => rfl⟩
    · rename_i waiting last
      refine ⟨exec.request, fun enabled => ?_⟩
      exact absurd (exec.enabled enabled) waiting

theorem Linked.acknowledge {lines : InterruptLines} (linked : lines.Linked) :
    lines.acknowledge.Linked :=
  ⟨nofun, linked.enabled⟩

theorem Linked.signal {lines : InterruptLines} (linked : lines.Linked) (signal : Bool) :
    (lines.request signal).Linked := by
  refine ⟨fun raised => ?_, linked.enabled⟩
  unfold InterruptLines.request at raised ⊢
  cases inte : lines.inte with
  | true => rfl
  | false =>
    rw [inte, Bool.false_and, Bool.or_false] at raised
    rw [← inte]
    exact linked.request raised

/-- The frame signal does not open a window. -/
theorem allows_request {lines : InterruptLines} {window : EiWindow} (allows : window.Allows lines)
    (signal : Bool) : window.Allows (lines.request signal) := by
  cases window with
  | shut => exact allows
  | held => exact allows
  | passed => trivial

/-- An instruction moves the window and the cells together. -/
theorem allows_execute {lines : InterruptLines} {window : EiWindow} (allows : window.Allows lines)
    (instr : Instr) : (window.after (.executed instr)).Allows (lines.execute instr) := by
  by_cases ei : instr = .ei
  · subst ei
    exact ⟨rfl, rfl⟩
  · have moved : window.after (.executed instr) = if window = .held then .passed else window := by
      unfold EiWindow.after
      split
      · rename_i same
        exact absurd (InterruptEvent.executed.inj same) ei
      · rfl
      all_goals rename_i other; exact nomatch other
    rw [moved]
    cases window with
    | held => exact trivial
    | passed => exact trivial
    | shut =>
      obtain ⟨pending, blocked⟩ := allows
      by_cases di : instr = .di
      · subst di
        exact ⟨rfl, Or.inl rfl⟩
      · have still : lines.exec instr = lines := by
          unfold InterruptLines.exec
          split
          · exact absurd rfl di
          · exact absurd rfl ei
          · rfl
        have kept : lines.execute instr = lines := by
          unfold InterruptLines.execute countdown
          rw [still, if_pos pending]
        rw [kept]
        exact ⟨pending, blocked⟩

/-- An interrupt is accepted only in a window that has passed. -/
theorem passed_of_accepts {lines : InterruptLines} {window : EiWindow} (linked : lines.Linked)
    (allows : window.Allows lines) (accepts : lines.accepts = true) : window = .passed := by
  obtain ⟨irq, enabled⟩ := Bool.and_eq_true_iff.mp accepts
  cases window with
  | passed => rfl
  | held => exact absurd enabled (by rw [allows.1]; exact nofun)
  | shut =>
    obtain ⟨-, off | low⟩ := allows
    · exact absurd enabled (by rw [off]; exact nofun)
    · exact absurd (linked.request irq) (by rw [low]; exact nofun)

end InterruptLines

/-- The four cells of a machine. -/
def Machine.lines {δ : Type} (machine : Machine δ) : InterruptLines where
  iff := machine.cpu.iff
  eiPending := machine.cpu.eiPending
  inte := machine.inte
  irq := machine.irq

namespace Bus

variable {δ : Type} [Chips δ]

theorem lines_exec (bus : Bus δ) (instr : Instr) :
    (bus.exec instr).lines = bus.lines.exec instr := by
  by_cases ei : instr = .ei
  · subst ei
    change (⟨false, 2, true, bus.irq && true⟩ : InterruptLines) = ⟨false, 2, true, bus.irq⟩
    rw [Bool.and_true]
  · by_cases di : instr = .di
    · subst di
      change (⟨false, 0, false, bus.irq && false⟩ : InterruptLines) = ⟨false, 0, false, false⟩
      rw [Bool.and_false]
    · obtain ⟨pending, enabled, inte, irq⟩ := bus.exec_lines instr ei di
      have still : bus.lines.exec instr = bus.lines := by
        unfold InterruptLines.exec
        split
        · exact absurd rfl di
        · exact absurd rfl ei
        · rfl
      rw [still]
      unfold Machine.lines
      rw [pending, enabled, inte, irq]

omit [Chips δ] in
theorem lines_countdown (bus : Bus δ) : bus.countdown.lines = bus.lines.countdown := by
  obtain ⟨pending, pendingEq⟩ : ∃ pending, pending = bus.cpu.eiPending := ⟨_, rfl⟩
  have waiting : bus.lines.eiPending = pending := pendingEq.symm
  unfold countdown InterruptLines.countdown
  dsimp only [setCpu]
  rw [waiting, ← pendingEq]
  by_cases none : pending = 0
  · rw [if_pos none, if_pos none]
  · rw [if_neg none, if_neg none]
    by_cases last : pending = 1
    · rw [if_pos last, if_pos (show pending - 1 = 0 by omega)]
      change (⟨true, pending - 1, true, bus.irq && true⟩ : InterruptLines) =
        ⟨true, 0, true, bus.irq⟩
      rw [Bool.and_true, last]
    · rw [if_neg last, if_neg (show pending - 1 ≠ 0 by omega)]
      rfl

theorem lines_i8080Execute (bus : Bus δ) (opcode : Byte) :
    (bus.i8080Execute opcode).2.lines = bus.lines.execute (decode opcode) := by
  have kept : (bus.i8080Execute opcode).2.lines = (bus.exec (decode opcode)).countdown.lines := rfl
  rw [kept, lines_countdown, lines_exec]
  rfl

end Bus

namespace Machine

variable {δ : Type} [Chips δ]

/-- An instruction of the machine is an instruction of the cells. -/
theorem lines_next (machine : Machine δ) :
    machine.next.lines = machine.lines.execute (decode machine.opcode) := by
  have ended : machine.next.lines =
      (machine.bus.fetchByte.2.i8080Execute machine.opcode).2.lines := rfl
  rw [ended, Bus.lines_i8080Execute]
  rfl

end Machine

namespace Board

variable {δ : Type} [Chips δ]

/-- `single_step` executes the instruction on the cells, then shows them the frame signal. -/
theorem lines_singleStep (board : Board δ) (updateScreen : Bool) :
    ∃ signal, (board.singleStep updateScreen).machine.lines =
      (board.machine.lines.execute (decode board.machine.opcode)).request signal := by
  have after := board.singleStep_stepOf updateScreen
  have raised : ∃ signal, board.request.2 =
      (board.machine.next.irq || (board.machine.next.inte && signal)) := by
    unfold request interruptRequest
    dsimp only
    split
    · split
      · exact ⟨false, by rw [Bool.and_false, Bool.or_false]⟩
      · exact ⟨true, by rw [Bool.and_true]⟩
    · split
      · exact ⟨true, by rw [Bool.and_true]⟩
      · exact ⟨false, by rw [Bool.and_false, Bool.or_false]⟩
  obtain ⟨signal, raised⟩ := raised
  refine ⟨signal, ?_⟩
  rw [← Machine.lines_next, after.machine, raised]
  rfl

theorem lines_acceptInterrupt (board : Board δ) (linked : board.machine.lines.Linked)
    (accepts : board.acceptsInterrupt = true) :
    board.acceptInterrupt.machine.lines = board.machine.lines.acknowledge := by
  have enabled : board.machine.cpu.iff = true := (Bool.and_eq_true_iff.mp accepts).2
  have pending : board.machine.cpu.eiPending = 0 := linked.enabled enabled
  have lowered : ∀ lowered : Board δ, lowered.machine.lines = board.machine.lines.acknowledge →
      (lowered.machine.bus.i8080Execute 0xff).2.lines = board.machine.lines.acknowledge := by
    intro lowered same
    have restart : decode 0xff = .rst 7 := rfl
    have sameBus : lowered.machine.bus.lines = board.machine.lines.acknowledge := same
    rw [Bus.lines_i8080Execute, restart, sameBus]
    unfold InterruptLines.execute InterruptLines.countdown InterruptLines.exec
    exact if_pos pending
  have low : (board.interrupt false).machine.lines = board.machine.lines.acknowledge := by
    change (⟨board.machine.cpu.iff, board.machine.cpu.eiPending, false,
      board.machine.irq && false⟩ : InterruptLines) =
        ⟨board.machine.cpu.iff, board.machine.cpu.eiPending, false, false⟩
    rw [Bool.and_false]
  unfold acceptInterrupt
  dsimp only
  split
  · exact lowered _ low
  · exact lowered _ low

/-- The steps of a board that matter to interrupts. Between the calls of `check_interrupt` and
`single_step` anything may happen that leaves the four cells alone: a new frame, another beam, a
debugger writing memory and registers. -/
inductive Tick : Board δ → InterruptEvent → Board δ → Prop
  /-- `check_interrupt` with a request it takes. -/
  | accept (board : Board δ) (accepts : board.acceptsInterrupt = true) :
    Tick board .accepted board.checkInterrupt
  /-- `check_interrupt` otherwise. -/
  | poll (board : Board δ) (refuses : board.acceptsInterrupt = false) :
    Tick board .polled board.checkInterrupt
  /-- `single_step`. -/
  | step (board : Board δ) (updateScreen : Bool) :
    Tick board (.executed (decode board.machine.opcode)) (board.singleStep updateScreen)
  /-- `Board::reset`. -/
  | reset (board : Board δ) (mode : ResetMode) (optionsPc : Word) :
    Tick board .elsewhere (board.reset mode optionsPc)
  /-- Anything else. -/
  | elsewhere (board other : Board δ) (kept : other.machine.lines = board.machine.lines) :
    Tick board .elsewhere other

/-- What a run keeps, with the window that the events so far have opened. -/
structure Guarded (board : Board δ) (window : EiWindow) : Prop where
  /-- The cells are in step. -/
  linked : board.machine.lines.Linked
  /-- The window says what it should of them. -/
  allows : window.Allows board.machine.lines

theorem Tick.guarded {board after : Board δ} {event : InterruptEvent} {window : EiWindow}
    (tick : Tick board event after) (guarded : board.Guarded window) :
    after.Guarded (window.after event) ∧ (event = .accepted → window = .passed) := by
  obtain ⟨linked, allows⟩ := guarded
  cases tick with
  | accept accepts =>
    have lines := board.lines_acceptInterrupt linked accepts
    have passed := InterruptLines.passed_of_accepts linked allows accepts
    have pending : board.machine.lines.eiPending = 0 :=
      linked.enabled (Bool.and_eq_true_iff.mp accepts).2
    unfold checkInterrupt
    rw [if_pos accepts]
    refine ⟨⟨?_, ?_⟩, fun _ => passed⟩
    · rw [lines]
      exact linked.acknowledge
    · rw [lines]
      exact ⟨pending, Or.inr rfl⟩
  | poll refuses =>
    unfold checkInterrupt
    rw [refuses]
    exact ⟨⟨linked, allows⟩, nofun⟩
  | step updateScreen =>
    obtain ⟨signal, lines⟩ := board.lines_singleStep updateScreen
    refine ⟨⟨?_, ?_⟩, nofun⟩
    · rw [lines]
      exact (linked.execute _).signal signal
    · rw [lines]
      exact InterruptLines.allows_request (InterruptLines.allows_execute allows _) signal
  | reset mode optionsPc =>
    have lines : (board.reset mode optionsPc).machine.lines =
        { board.machine.lines with irq := false } := by
      cases mode <;> rfl
    refine ⟨⟨?_, ?_⟩, nofun⟩
    · rw [lines]
      exact ⟨nofun, linked.enabled⟩
    · rw [lines]
      cases window with
      | shut => exact allows
      | held => exact allows
      | passed => trivial
  | elsewhere other kept =>
    refine ⟨⟨?_, ?_⟩, nofun⟩
    · rw [kept]
      exact linked
    · rw [kept]
      exact allows

/-- Along a run the cells stay in step, and whenever an interrupt is accepted the window has
passed. -/
theorem guarded_run {start final : Board δ} {events : List InterruptEvent}
    (run : Transition.Run Tick start events final) :
    ∀ window : EiWindow, start.Guarded window →
      final.Guarded (window.afterAll events) ∧
        ∀ front back, events = front ++ .accepted :: back → window.afterAll front = .passed := by
  induction run with
  | nil state =>
    intro window guarded
    refine ⟨guarded, fun front back split' => ?_⟩
    exact absurd split'.symm (by simp)
  | cons tick rest inductionHypothesis =>
    rename_i state middle final event events
    intro window guarded
    obtain ⟨next, accepted⟩ := tick.guarded guarded
    obtain ⟨last, passed⟩ := inductionHypothesis _ next
    refine ⟨last, fun front back split' => ?_⟩
    cases front with
    | nil => exact accepted (List.cons.inj split').1
    | cons first front =>
      obtain ⟨same, restSplit⟩ := List.cons.inj split'
      rw [EiWindow.afterAll_cons, ← same]
      exact passed front back restSplit

/-- Interrupts are never nested without `EI`. In every run from a processor that has interrupts
off: the cells stay in step; between two accepted interrupts there are an `EI` and another
instruction after it; and after an `EI` none is accepted before an instruction that is not
one. -/
theorem interrupts_guarded {start final : Board δ} {events : List InterruptEvent}
    (disabled : start.machine.cpu.iff = false) (idle : start.machine.cpu.eiPending = 0)
    (quiet : start.machine.irq = false) (run : Transition.Run Tick start events final) :
    ((final.machine.irq = true → final.machine.inte = true) ∧
        (final.machine.cpu.iff = true → final.machine.cpu.eiPending = 0)) ∧
      (∀ front middle back, events = front ++ .accepted :: (middle ++ .accepted :: back) →
        ∃ before between instr after,
          middle = before ++ .executed .ei :: (between ++ .executed instr :: after)) ∧
      ∀ front middle back, events = front ++ .executed .ei :: (middle ++ .accepted :: back) →
        ∃ instr, instr ≠ .ei ∧ .executed instr ∈ middle := by
  have initial : start.Guarded .shut := by
    refine ⟨⟨fun raised => ?_, fun enabled => ?_⟩, idle, Or.inl disabled⟩
    · exact absurd (quiet.symm.trans raised) Bool.false_ne_true
    · exact absurd (disabled.symm.trans enabled) Bool.false_ne_true
  obtain ⟨guarded, passed⟩ := guarded_run run .shut initial
  refine ⟨⟨guarded.linked.request, guarded.linked.enabled⟩, ?_, ?_⟩
  · intro front middle back split'
    have second := passed (front ++ .accepted :: middle) back (by rw [split']; simp)
    rw [EiWindow.afterAll_append, EiWindow.afterAll_cons] at second
    obtain ⟨before, between, instr, after, inMiddle, -⟩ := EiWindow.ei_of_passed second
    exact ⟨before, between, instr, after, inMiddle⟩
  · intro front middle back split'
    have last := passed (front ++ .executed .ei :: middle) back (by rw [split']; simp)
    rw [EiWindow.afterAll_append, EiWindow.afterAll_cons] at last
    obtain ⟨before, instr, after, inMiddle, notEi, -⟩ :=
      EiWindow.passed_of_other middle .held (by decide) last
    exact ⟨instr, notEi, by rw [inMiddle]; simp⟩

/-- A board just switched on, and its first instruction. -/
theorem interrupts_guarded_powerOn :
    ((powerOn () [0xfb]).singleStep true).machine.irq = false ∨
      ((powerOn () [0xfb]).singleStep true).machine.inte = true := by
  have disabled : (powerOn () [0xfb]).machine.cpu.iff = false := rfl
  have idle : (powerOn () [0xfb]).machine.cpu.eiPending = 0 := rfl
  have quiet : (powerOn () [0xfb]).machine.irq = false := rfl
  have stepped := Tick.step (powerOn () [0xfb]) true
  obtain ⟨final, finalEq⟩ : ∃ final, final = (powerOn () [0xfb]).singleStep true := ⟨_, rfl⟩
  rw [← finalEq] at stepped ⊢
  have guarded := (interrupts_guarded disabled idle quiet (.cons stepped (.nil final))).1.1
  cases raised : final.machine.irq with
  | false => exact Or.inl rfl
  | true => exact Or.inr (guarded raised)

end Board

end VectorDebugger

import VectorDebugger.Debugger.Accounting

/-!
# Instruction sequence numbers

A step records its events under the current number and advances it afterwards; the free run
advances it at the opcode fetch. `numbered_iff` says when the two conventions give every
instruction of a run a number of its own, and the interval of a trace exactly the events of
the traced instructions: only when the run never changes from one to the other, and the
detector never takes a read inside an instruction for another opcode fetch.

A run lists fetched instructions. An interrupt that the board accepts between two of them
fires write callbacks only, which do not move the number.
-/

namespace VectorDebugger

/-- The two ways to execute an instruction. -/
inductive Mode
  | step | free
deriving DecidableEq, Repr

/-- Whether no read inside the next instruction looks like an opcode fetch to a detector that
saw its opcode. -/
def Machine.undisturbed {δ : Type} [Chips δ] (machine : Machine δ) : Bool :=
  quiet (getLength machine.opcode - 1) (accesses machine.operandEvents)

namespace Instrumentation

variable {δ : Type} [Chips δ]

/-- The `instructionSequence` recorded with one event. -/
def recordedSequence (inst : Instrumentation) : BusEvent → Nat
  | .read virt _ stack _ value pc => (inst.detect virt stack value pc).instructionSequence
  | .write .. | .input .. | .output .. => inst.instructionSequence

/-- Every history entry carries the recorded number. -/
theorem observe_records (inst : Instrumentation) (event : BusEvent)
    (enabled : inst.instrumentationEnabled = true) :
    (∃ entry : MemoryAccessEvent, entry.instructionSequence = inst.recordedSequence event ∧
        (inst.observe event).memHistory = inst.memHistory.push entry) ∨
      ∃ entry : IoAccessEvent, entry.instructionSequence = inst.recordedSequence event ∧
        (inst.observe event).ioHistory = inst.ioHistory.push entry := by
  cases event with
  | read virt phys stack fetch value pc =>
    left
    have kept : (inst.detect virt stack value pc).memHistory = inst.memHistory := by
      unfold detect
      split <;> rfl
    simp only [observe, onMemoryRead, enabled, Bool.not_true, Bool.false_eq_true, ↓reduceIte,
      recordRead, logAccess, kept]
    exact ⟨_, rfl, rfl⟩
  | write virt phys stack value pc =>
    left
    simp only [observe, onMemoryWrite, enabled, Bool.not_true, Bool.false_eq_true, ↓reduceIte,
      logAccess]
    exact ⟨_, rfl, rfl⟩
  | input port value =>
    right
    simp only [observe, onIoInput, enabled, Bool.not_true, Bool.false_eq_true, ↓reduceIte]
    exact ⟨_, rfl, rfl⟩
  | output port value =>
    right
    simp only [observe, onIoOutput, enabled, Bool.not_true, Bool.false_eq_true, ↓reduceIte]
    exact ⟨_, rfl, rfl⟩

/-- The numbers recorded with a list of events. -/
def sequences (inst : Instrumentation) : List BusEvent → List Nat
  | [] => []
  | event :: events => inst.recordedSequence event :: sequences (inst.observe event) events

/-- Execute one instruction in the given mode. -/
def execute (inst : Instrumentation) (item : Mode × Machine δ) : Instrumentation :=
  match item.1 with
  | .step => inst.stepInstructionDetailed item.2
  | .free => inst.freeInstruction item.2

/-- The numbers recorded with the events of one instruction. -/
def numbers (inst : Instrumentation) (item : Mode × Machine δ) : List Nat :=
  match item.1 with
  | .step => (inst.openWindow item.2).sequences item.2.events
  | .free => inst.sequences item.2.events

/-- Execute a run. -/
def executeAll (inst : Instrumentation) (run : List (Mode × Machine δ)) : Instrumentation :=
  run.foldl execute inst

/-- The numbers recorded with the events of a run. -/
def allNumbers (inst : Instrumentation) : List (Mode × Machine δ) → List Nat
  | [] => []
  | item :: run => inst.numbers item ++ allNumbers (inst.execute item) run

/-- The events of a run are numbered consecutively from `base`, one number an instruction. -/
def NumberedFrom : Nat → Instrumentation → List (Mode × Machine δ) → Prop
  | _, _, [] => True
  | base, inst, item :: run =>
    (∀ number ∈ inst.numbers item, number = base) ∧ NumberedFrom (base + 1) (inst.execute item) run

/-- The interval of every trace in a run holds the events of exactly the traced instructions.
A trace is a stretch of steps; its interval goes from the number before it to the number
after it. -/
def TracesExact (inst : Instrumentation) (run : List (Mode × Machine δ)) : Prop :=
  ∀ front trace back, run = front ++ trace ++ back → (∀ item ∈ trace, item.1 = .step) →
    let before := inst.executeAll front
    let after := before.executeAll trace
    let inside (number : Nat) : Prop :=
      before.instructionSequence ≤ number ∧ number < after.instructionSequence
    (∀ number ∈ inst.allNumbers front, ¬ inside number) ∧
      (∀ number ∈ before.allNumbers trace, inside number) ∧
      ∀ number ∈ after.allNumbers back, ¬ inside number

/-- The detector sees every opcode fetch of the free-run instructions. -/
def SeesEveryFetch : Instrumentation → List (Mode × Machine δ) → Prop
  | _, [] => True
  | inst, item :: run =>
    (item.1 = .free → inst.fetchRemaining = 0) ∧ SeesEveryFetch (inst.execute item) run

/-- A run that keeps to one mode, in free run without a disturbance of the detector. -/
def OneMode (run : List (Mode × Machine δ)) : Prop :=
  (∀ item ∈ run, item.1 = .step) ∨
    ∀ item ∈ run, item.1 = .free ∧ item.2.undisturbed = true

/-- Recording is on and no step is under way. -/
structure Recording (inst : Instrumentation) : Prop where
  /-- Recording is on. -/
  enabled : inst.instrumentationEnabled = true
  /-- No step is under way. -/
  stepping : inst.steppingInProgress = false

theorem recordedSequence_eq (inst : Instrumentation) (event : BusEvent)
    (enabled : inst.instrumentationEnabled = true) :
    (inst.observe event).instructionSequence = inst.recordedSequence event := by
  cases event with
  | read virt phys stack fetch value pc =>
    simp [observe, onMemoryRead, enabled, recordRead, logAccess, recordedSequence]
  | write virt phys stack value pc =>
    simp [observe, onMemoryWrite, enabled, logAccess, recordedSequence]
  | input port value => simp [observe, onIoInput, enabled, recordedSequence]
  | output port value => simp [observe, onIoOutput, enabled, recordedSequence]

/-- A callback that is not taken for an opcode fetch. -/
theorem observe_undetected (inst : Instrumentation) (event : BusEvent)
    (enabled : inst.instrumentationEnabled = true)
    (calm : inst.steppingInProgress = true ∨
      quiet inst.fetchRemaining (accesses [event]) = true) :
    inst.recordedSequence event = inst.instructionSequence ∧
      (inst.observe event).freeRunSequenceStarted = inst.freeRunSequenceStarted ∧
      (inst.observe event).fetchRemaining =
        inst.fetchRemaining - (accesses [event]).length := by
  cases event with
  | read virt phys stack fetch value pc =>
    have undetected : inst.detect virt stack value pc = inst := by
      rcases calm with stepping | calm
      · exact inst.detect_stepping virt stack value pc stepping
      · exact inst.detect_of_quiet virt stack fetch value pc calm
    simp [recordedSequence, observe, onMemoryRead, undetected, enabled, recordRead, logAccess]
  | write virt phys stack value pc =>
    simp [recordedSequence, observe, onMemoryWrite, enabled, logAccess]
  | input port value => simp [recordedSequence, observe, onIoInput, enabled]
  | output port value => simp [recordedSequence, observe, onIoOutput, enabled]

theorem accesses_cons (event : BusEvent) (events : List BusEvent) :
    accesses (event :: events) = accesses [event] ++ accesses events := by
  rw [← accesses_append]
  rfl

/-- Callbacks that are never taken for an opcode fetch share one number. -/
theorem sequences_undetected (events : List BusEvent) :
    ∀ inst : Instrumentation, inst.instrumentationEnabled = true →
      (inst.steppingInProgress = true ∨
        quiet inst.fetchRemaining (accesses events) = true) →
      (∀ number ∈ inst.sequences events, number = inst.instructionSequence) ∧
        (inst.observeAll events).instructionSequence = inst.instructionSequence ∧
        (inst.observeAll events).freeRunSequenceStarted = inst.freeRunSequenceStarted := by
  induction events with
  | nil =>
    intro inst enabled calm
    exact ⟨by simp [sequences], rfl, rfl⟩
  | cons event events inductionHypothesis =>
    intro inst enabled calm
    rw [accesses_cons, quiet_append, Bool.and_eq_true] at calm
    obtain ⟨number, started, window⟩ := inst.observe_undetected event enabled
      (calm.imp_right And.left)
    have same := (inst.recordedSequence_eq event enabled).trans number
    obtain ⟨rest, last, still⟩ := inductionHypothesis (inst.observe event) (by simpa using enabled)
      (calm.imp (fun stepping => by simpa using stepping) fun both => by rw [window]; exact both.2)
    refine ⟨?_, last.trans same, still.trans started⟩
    intro other listed
    simp only [sequences, List.mem_cons] at listed
    rcases listed with rfl | later
    · exact number
    · exact (rest other later).trans same

/-- A callback taken for an opcode fetch takes the next number. -/
theorem sequences_disturbed (events : List BusEvent) :
    ∀ inst : Instrumentation, inst.instrumentationEnabled = true →
      inst.steppingInProgress = false → inst.freeRunSequenceStarted = true →
      quiet inst.fetchRemaining (accesses events) = false →
      inst.instructionSequence + 1 ∈ inst.sequences events := by
  induction events with
  | nil =>
    intro inst enabled stepping started disturbed
    simp [quiet] at disturbed
  | cons event events inductionHypothesis =>
    intro inst enabled stepping started disturbed
    rw [accesses_cons, quiet_append] at disturbed
    simp only [sequences, List.mem_cons]
    by_cases calm : quiet inst.fetchRemaining (accesses [event]) = true
    · right
      obtain ⟨number, kept, window⟩ := inst.observe_undetected event enabled (Or.inr calm)
      rw [calm, Bool.true_and, ← window] at disturbed
      have later := inductionHypothesis (inst.observe event) (by simpa using enabled)
        (by simpa using stepping) (kept.trans started) disturbed
      rwa [inst.recordedSequence_eq event enabled, number] at later
    · left
      cases event with
      | read virt phys stack fetch value pc =>
        have detected : inst.startsInstruction virt stack pc = true := by
          cases remaining : inst.fetchRemaining with
          | zero =>
            rw [remaining] at calm
            simpa [quiet, startsInstruction, Access.startsInstruction, stepping, remaining]
              using calm
          | succ remaining' =>
            rw [remaining] at calm
            simp [quiet] at calm
        simp [recordedSequence, detect, detected, started]
      | write virt phys stack value pc => simp [quiet] at calm
      | input port value => simp [quiet] at calm
      | output port value => simp [quiet] at calm

/-- A step numbers its events with the current number and advances it. -/
theorem step_numbers (inst : Instrumentation) (machine : Machine δ) (recording : inst.Recording) :
    (∀ number ∈ inst.numbers (.step, machine), number = inst.instructionSequence) ∧
      inst.instructionSequence ∈ inst.numbers (.step, machine) ∧
      (inst.execute (.step, machine)).instructionSequence = inst.instructionSequence + 1 ∧
      (inst.execute (.step, machine)).freeRunSequenceStarted = true ∧
      (inst.execute (.step, machine)).Recording := by
  obtain ⟨enabled, stepping⟩ := recording
  obtain ⟨all, last, started⟩ := sequences_undetected machine.events (inst.openWindow machine)
    enabled (Or.inl rfl)
  have still : ((inst.openWindow machine).observeAll
      machine.events).instrumentationEnabled = true :=
    (observeAll_instrumentationEnabled _ _).trans enabled
  have done : inst.execute (.step, machine) =
      ((inst.openWindow machine).observeAll machine.events).closeWindow.countInstruction
        machine := rfl
  rw [closeWindow_countInstruction _ machine still] at done
  have first : inst.instructionSequence ∈ inst.numbers (.step, machine) := by
    have number : (inst.openWindow machine).recordedSequence machine.opcodeEvent =
        inst.instructionSequence :=
      ((inst.openWindow machine).observe_undetected machine.opcodeEvent enabled (Or.inl rfl)).1
    unfold numbers
    rw [machine.events_eq]
    simp [sequences, number]
  rw [done]
  exact ⟨all, first, congrArg (· + 1) last, rfl, ⟨still, rfl⟩⟩

/-- The number that the free run gives to the next instruction. -/
def nextNumber (inst : Instrumentation) : Nat :=
  if inst.freeRunSequenceStarted then inst.instructionSequence + 1 else inst.instructionSequence

/-- The free run advances the number at the opcode fetch, and again at every read inside the
instruction that it takes for one. -/
theorem free_numbers (inst : Instrumentation) (machine : Machine δ) (recording : inst.Recording)
    (sees : inst.fetchRemaining = 0) :
    inst.nextNumber ∈ inst.numbers (.free, machine) ∧
      (inst.execute (.free, machine)).Recording ∧
      (machine.undisturbed = true →
        (∀ number ∈ inst.numbers (.free, machine), number = inst.nextNumber) ∧
          (inst.execute (.free, machine)).instructionSequence = inst.nextNumber ∧
          (inst.execute (.free, machine)).freeRunSequenceStarted = true) ∧
      (machine.undisturbed = false →
        inst.nextNumber + 1 ∈ inst.numbers (.free, machine)) := by
  obtain ⟨enabled, stepping⟩ := recording
  have agree : Agree inst inst := ⟨⟨enabled, stepping, sees⟩, enabled, rfl, rfl⟩
  obtain ⟨begun, window⟩ := observe_opcode machine agree
  have starts : inst.startsInstruction machine.cpu.pc.toNat false (machine.cpu.pc + 1) = true := by
    simp [startsInstruction, stepping, sees, BitVec.ofNat_add]
  have number : inst.recordedSequence machine.opcodeEvent = inst.nextNumber := by
    unfold recordedSequence Machine.opcodeEvent detect
    dsimp only
    rw [if_pos starts]
    rfl
  have started : (inst.observe machine.opcodeEvent).freeRunSequenceStarted = true := by
    unfold observe Machine.opcodeEvent onMemoryRead detect
    dsimp only
    rw [if_pos starts, enabled]
    rfl
  have sequence := (inst.recordedSequence_eq machine.opcodeEvent enabled).trans number
  have split : inst.numbers (.free, machine) =
      inst.nextNumber :: (inst.observe machine.opcodeEvent).sequences machine.operandEvents := by
    unfold numbers
    rw [machine.events_eq, ← number]
    rfl
  have executed : inst.execute (.free, machine) =
      (inst.observe machine.opcodeEvent).observeAll machine.operandEvents := by
    unfold execute freeInstruction
    rw [machine.events_eq]
    rfl
  have recording : (inst.execute (.free, machine)).Recording :=
    ⟨(observeAll_instrumentationEnabled _ _).trans enabled,
      (observeAll_steppingInProgress _ _).trans stepping⟩
  refine ⟨by rw [split]; exact List.mem_cons_self .., recording, ?_, ?_⟩
  · intro undisturbed
    obtain ⟨rest, last, still⟩ := sequences_undetected machine.operandEvents
      (inst.observe machine.opcodeEvent) begun.freeEnabled
      (Or.inr (by rw [window]; exact undisturbed))
    rw [executed, split]
    refine ⟨?_, last.trans sequence, still.trans started⟩
    intro other listed
    rcases List.mem_cons.mp listed with rfl | later
    · rfl
    · exact (rest other later).trans sequence
  · intro disturbed
    have later := sequences_disturbed machine.operandEvents (inst.observe machine.opcodeEvent)
      begun.freeEnabled begun.freeStepping started (by rw [window]; exact disturbed)
    rw [sequence] at later
    rw [split]
    exact List.mem_cons_of_mem _ later

/-- Consecutive numbers need one mode and an undisturbed detector. -/
theorem oneMode_of_numbered (run : List (Mode × Machine δ)) :
    ∀ (base : Nat) (inst : Instrumentation), inst.Recording → inst.SeesEveryFetch run →
      NumberedFrom base inst run → OneMode run := by
  induction run with
  | nil =>
    intro base inst recording sees numbered
    exact Or.inl (by simp)
  | cons item run inductionHypothesis =>
    obtain ⟨mode, machine⟩ := item
    intro base inst recording sees numbered
    obtain ⟨here, later⟩ := numbered
    cases mode with
    | step =>
      obtain ⟨_, mine, advanced, started, still⟩ := inst.step_numbers machine recording
      have same := here _ mine
      rcases inductionHypothesis _ _ still sees.2 later with steps | frees
      · exact Or.inl (List.forall_mem_cons.mpr ⟨rfl, steps⟩)
      · cases run with
        | nil => exact Or.inl (by simp)
        | cons next rest =>
          obtain ⟨nextMode, nextMachine⟩ := next
          have free : nextMode = .free := (frees _ (List.mem_cons_self ..)).1
          subst free
          -- the step has already advanced the number, and the fetch advances it again
          obtain ⟨theirs, _⟩ := free_numbers _ nextMachine still (sees.2.1 rfl)
          have follows := later.1 _ theirs
          simp only [nextNumber, started, ↓reduceIte, advanced] at follows
          omega
    | free =>
      obtain ⟨mine, still, calm, disturbed⟩ := inst.free_numbers machine recording (sees.1 rfl)
      have same := here _ mine
      have undisturbed : machine.undisturbed = true := by
        by_contra shaken
        have other := here _ (disturbed (by simpa using shaken))
        omega
      obtain ⟨_, sequence, _⟩ := calm undisturbed
      rcases inductionHypothesis _ _ still sees.2 later with steps | frees
      · cases run with
        | nil => exact Or.inr (by simp [undisturbed])
        | cons next rest =>
          obtain ⟨nextMode, nextMachine⟩ := next
          have step : nextMode = .step := steps _ (List.mem_cons_self ..)
          subst step
          -- the step reuses the number of the last free-run instruction
          obtain ⟨_, theirs, _⟩ := step_numbers _ nextMachine still
          have follows := later.1 _ theirs
          omega
      · exact Or.inr (List.forall_mem_cons.mpr ⟨⟨rfl, undisturbed⟩, frees⟩)

/-- A stepped run numbers its instructions from the current number on. -/
theorem numbered_of_steps (run : List (Mode × Machine δ)) :
    ∀ inst : Instrumentation, inst.Recording → (∀ item ∈ run, item.1 = .step) →
      NumberedFrom inst.instructionSequence inst run ∧
        (∀ number ∈ inst.allNumbers run, inst.instructionSequence ≤ number ∧
          number < (inst.executeAll run).instructionSequence) ∧
        inst.instructionSequence ≤ (inst.executeAll run).instructionSequence ∧
        (inst.executeAll run).Recording := by
  induction run with
  | nil =>
    intro inst recording steps
    exact ⟨trivial, by simp [allNumbers], Nat.le_refl _, recording⟩
  | cons item run inductionHypothesis =>
    obtain ⟨mode, machine⟩ := item
    intro inst recording steps
    obtain rfl : mode = .step := steps _ (List.mem_cons_self ..)
    obtain ⟨all, _, advanced, _, still⟩ := inst.step_numbers machine recording
    obtain ⟨numbered, bounds, grown, last⟩ := inductionHypothesis _ still fun item listed =>
      steps item (List.mem_cons_of_mem _ listed)
    have whole : inst.executeAll ((.step, machine) :: run) =
        (inst.execute (.step, machine)).executeAll run := rfl
    rw [advanced] at numbered grown bounds
    refine ⟨⟨all, numbered⟩, ?_, by rw [whole]; omega, last⟩
    intro number listed
    rw [whole]
    rcases List.mem_append.mp listed with now | later
    · have same := all number now
      omega
    · have bound := bounds number later
      omega

/-- An undisturbed free run numbers its instructions from the next number on. -/
theorem numbered_of_frees (run : List (Mode × Machine δ)) :
    ∀ inst : Instrumentation, inst.Recording → inst.SeesEveryFetch run →
      (∀ item ∈ run, item.1 = .free ∧ item.2.undisturbed = true) →
      NumberedFrom inst.nextNumber inst run := by
  induction run with
  | nil => exact fun inst recording sees frees => trivial
  | cons item run inductionHypothesis =>
    obtain ⟨mode, machine⟩ := item
    intro inst recording sees frees
    obtain ⟨rfl, undisturbed⟩ : mode = .free ∧ machine.undisturbed = true :=
      frees _ (List.mem_cons_self ..)
    obtain ⟨_, still, calm, _⟩ := inst.free_numbers machine recording (sees.1 rfl)
    obtain ⟨all, sequence, started⟩ := calm undisturbed
    have rest := inductionHypothesis _ still sees.2 fun item listed =>
      frees item (List.mem_cons_of_mem _ listed)
    have next : (inst.execute (.free, machine)).nextNumber = inst.nextNumber + 1 := by
      simp [nextNumber, started, sequence]
    rw [next] at rest
    exact ⟨all, rest⟩

/-- The interval of a trace is exact in a stepped run. -/
theorem tracesExact_of_steps (inst : Instrumentation) (run : List (Mode × Machine δ))
    (recording : inst.Recording) (steps : ∀ item ∈ run, item.1 = .step) :
    inst.TracesExact run := by
  intro front trace back whole traced
  subst whole
  have parts : ∀ item, item ∈ front ∨ item ∈ trace ∨ item ∈ back → item.1 = .step := by
    intro item listed
    apply steps
    simpa [List.mem_append, or_assoc] using listed
  obtain ⟨_, early, _, first⟩ := numbered_of_steps front inst recording fun item listed =>
    parts item (Or.inl listed)
  obtain ⟨_, inside, grown, second⟩ := numbered_of_steps trace _ first fun item listed =>
    parts item (Or.inr (Or.inl listed))
  obtain ⟨_, late, _, _⟩ := numbered_of_steps back _ second fun item listed =>
    parts item (Or.inr (Or.inr listed))
  refine ⟨?_, inside, ?_⟩
  · intro number listed
    have bound := early number listed
    omega
  · intro number listed
    have bound := late number listed
    omega

/-- A free run holds no trace. -/
theorem tracesExact_of_frees (inst : Instrumentation) (run : List (Mode × Machine δ))
    (frees : ∀ item ∈ run, item.1 = .free) : inst.TracesExact run := by
  intro front trace back whole traced
  have none : trace = [] := by
    cases trace with
    | nil => rfl
    | cons item rest =>
      have step := traced item (List.mem_cons_self ..)
      have free := frees item (by rw [whole]; simp)
      rw [step] at free
      exact Mode.noConfusion free
  subst none
  refine ⟨fun number _ inside => ?_, by simp [allNumbers], fun number _ inside => ?_⟩
  · exact absurd inside.2 (Nat.not_lt.mpr inside.1)
  · exact absurd inside.2 (Nat.not_lt.mpr inside.1)

/-- In a run whose opcode fetches are all seen, the events are numbered by instruction and
every trace has an exact interval if and only if the run keeps to one mode, in free run with
an undisturbed detector. -/
theorem numbered_iff (inst : Instrumentation) (run : List (Mode × Machine δ))
    (recording : inst.Recording) (sees : inst.SeesEveryFetch run) :
    ((∃ base, NumberedFrom base inst run) ∧ inst.TracesExact run) ↔ OneMode run := by
  constructor
  · rintro ⟨⟨base, numbered⟩, _⟩
    exact oneMode_of_numbered run base inst recording sees numbered
  · rintro (steps | frees)
    · exact ⟨⟨_, (numbered_of_steps run inst recording steps).1⟩,
        inst.tracesExact_of_steps run recording steps⟩
    · exact ⟨⟨_, numbered_of_frees run inst recording sees frees⟩,
        inst.tracesExact_of_frees run fun item listed => (frees item listed).1⟩

/-- The conditions of `numbered_iff` hold of two instructions in free run after a reset. -/
theorem numbered_iff_free :
    let start := Machine.powerOn () [0x3e, 0x42, 0x00]
    let run := [(Mode.free, start), (.free, start.next)]
    ((∃ base, NumberedFrom base init.reset run) ∧ init.reset.TracesExact run) ↔ OneMode run :=
  numbered_iff init.reset _ ⟨rfl, rfl⟩ ⟨fun _ => rfl, fun _ => rfl, trivial⟩

/-- A step after a free-run instruction reuses its number, although the detector saw every
opcode fetch. -/
theorem step_after_free_reuses_number :
    let start := Machine.powerOn () [0x00, 0x00]
    let run := [(Mode.free, start), (.step, start.next)]
    init.reset.Recording ∧ init.reset.SeesEveryFetch run ∧
      init.reset.numbers (.free, start) = [0] ∧
      (init.reset.execute (.free, start)).numbers (.step, start.next) = [0] ∧
      ¬ ∃ base, NumberedFrom base init.reset run := by
  refine ⟨⟨rfl, rfl⟩, ⟨fun _ => rfl, nofun, trivial⟩, by decide, by decide, ?_⟩
  rintro ⟨base, first, second, _⟩
  have zero := first 0 (by decide)
  have one := second 0 (by decide)
  omega

end Instrumentation

end VectorDebugger

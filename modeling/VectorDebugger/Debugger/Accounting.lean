import VectorDebugger.Debugger.Instrumentation

/-!
# Step and free-run accounting

The free run finds instructions in the read stream with a byte counter, the step path is
told where they are. Both feed the same counters. They agree as long as the counter runs
out exactly at the end of every instruction: the bytes the core takes from the instruction
stream must be those the length table promises, and no read inside the instruction may look
like an opcode fetch. `inPhase_of_regular` goes through the read pattern of every opcode.
-/

namespace VectorDebugger

/-- Whether a read looks like an opcode fetch once the byte counter has run out. -/
def Access.startsInstruction (access : Access) : Bool :=
  !access.stack && BitVec.ofNat 16 (access.virt + 1) == access.pc

/-- Whether a read of data hits the byte just before the program counter. -/
def Access.readsItself (access : Access) : Bool :=
  !access.fetch && access.startsInstruction

/-- Whether no read looks like an opcode fetch after the counter has run out. -/
def quiet : Nat → List Access → Bool
  | _, [] => true
  | 0, access :: rest => !access.startsInstruction && quiet 0 rest
  | remaining + 1, _ :: rest => quiet remaining rest

theorem quiet_of_forall {reads : List Access} :
    ∀ remaining, (∀ access ∈ reads, access.startsInstruction = false) →
      quiet remaining reads = true := by
  induction reads with
  | nil =>
    intro remaining never
    unfold quiet
    rfl
  | cons access rest inductionHypothesis =>
    intro remaining never
    have first := never access (List.mem_cons_self ..)
    have later := fun read listed => never read (List.mem_cons_of_mem access listed)
    cases remaining with
    | zero => simp [quiet, first, inductionHypothesis 0 later]
    | succ remaining => exact inductionHypothesis remaining later

namespace Machine

variable {δ : Type} [Chips δ]

/-- Whether the next instruction makes a data read, outside the stack and its own encoding,
from the byte just before its program counter. -/
def readsItself (machine : Machine δ) : Bool :=
  (accesses machine.operandEvents).any Access.readsItself

/-- Whether the next instruction is a conditional jump or call that is not taken. -/
def branchNotTaken (machine : Machine δ) : Bool :=
  match decode machine.opcode with
  | .jcc cc | .ccc cc => !machine.cpu.flags.test cc
  | _ => false

/-- Whether the next instruction takes as many bytes from its stream as the table says, in
an order the byte counter can follow. -/
def regular (machine : Machine δ) : Bool :=
  decode machine.opcode ≠ .mviM && !machine.branchNotTaken

/-- The byte counter runs out exactly at the end of the next instruction. -/
structure InPhase (machine : Machine δ) : Prop where
  /-- No read inside the instruction starts another one. -/
  quiet : quiet (getLength machine.opcode - 1) (accesses machine.operandEvents) = true
  /-- The instruction reads at least the bytes the table promises. -/
  enough : getLength machine.opcode - 1 ≤ (accesses machine.operandEvents).length

omit [Chips δ] in
theorem operandWord_startsInstruction (machine : Machine δ) :
    ∀ access ∈ machine.operandWord false, access.startsInstruction = false := by
  intro access listed
  have apart : ∀ k : Nat, (k = 1 ∨ k = 2) →
      BitVec.ofNat 16 (machine.cpu.pc.toNat + k) ≠ machine.cpu.pc := by
    intro k small same
    have value := congrArg BitVec.toNat same
    have bound := machine.cpu.pc.isLt
    rw [BitVec.toNat_ofNat] at value
    omega
  simp only [operandWord, List.mem_cons, List.not_mem_nil, or_false] at listed
  rcases listed with rfl | rfl
  · simpa [Access.startsInstruction] using apart 1 (Or.inl rfl)
  · simpa [Access.startsInstruction] using apart 2 (Or.inr rfl)

omit [Chips δ] in
theorem stack_startsInstruction (machine : Machine δ) :
    ∀ access ∈ machine.stackWord ++ machine.operandWord true,
      access.startsInstruction = false := by
  intro access listed
  simp only [stackWord, operandWord, List.mem_append, List.mem_cons, List.not_mem_nil,
    or_false] at listed
  rcases listed with (rfl | rfl) | (rfl | rfl) <;> rfl

omit [Chips δ] in
/-- The only read of an instruction's own bytes that looks like an opcode fetch is that of a
one-byte operand. -/
theorem accessesOf_startsInstruction (machine : Machine δ) (instr : Instr) :
    ∀ access ∈ machine.accessesOf instr,
      access.readsItself = false → access ≠ machine.operandByte →
        access.startsInstruction = false := by
  intro access listed separate other
  have word := machine.operandWord_startsInstruction access
  have stack := machine.stack_startsInstruction access
  have data : ∀ addr, access = machine.dataAccess addr → access.startsInstruction = false := by
    rintro addr rfl
    simpa [Access.readsItself, dataAccess] using separate
  cases instr with
  | rcc cc | jcc cc | ccc cc =>
    simp only [accessesOf] at listed
    split at listed <;> grind
  | _ => simp only [accessesOf] at listed; grind

omit [Chips δ] in
theorem operandBytes_le_accessesOf (machine : Machine δ) (instr : Instr)
    (taken : ∀ cc, instr = .jcc cc ∨ instr = .ccc cc → machine.cpu.flags.test cc = true) :
    instr.operandBytes ≤ (machine.accessesOf instr).length := by
  cases instr with
  | jcc cc | ccc cc => simp [accessesOf, Instr.operandBytes, operandWord, taken cc]
  | _ => simp [accessesOf, Instr.operandBytes, operandWord]

omit [Chips δ] in
/-- An operand byte read past the program counter is the whole operand, but for `MVI M`. -/
theorem operandByte_mem (machine : Machine δ) (instr : Instr)
    (listed : machine.operandByte ∈ machine.accessesOf instr) :
    instr = .mviM ∨
      instr.operandBytes = 1 ∧ machine.accessesOf instr = [machine.operandByte] := by
  have starts : machine.operandByte.startsInstruction = true := by
    simp [operandByte, Access.startsInstruction, BitVec.ofNat_add]
  have word := machine.operandWord_startsInstruction machine.operandByte
  have stack := machine.stack_startsInstruction machine.operandByte
  have data : ∀ addr, machine.operandByte ≠ machine.dataAccess addr := by
    intro addr same
    have flags := congrArg Access.fetch same
    exact Bool.noConfusion flags
  cases instr with
  | rcc cc | jcc cc | ccc cc =>
    simp only [accessesOf] at listed
    split at listed <;> grind
  | _ => simp only [accessesOf] at listed; grind [accessesOf, Instr.operandBytes]

omit [Chips δ] in
theorem quiet_accessesOf (machine : Machine δ) (instr : Instr) (length : Nat)
    (lengths : length = 1 + instr.operandBytes ∨
      length = 1 ∧ (instr = .jmp ∨ instr = .call))
    (separate : ∀ access ∈ machine.accessesOf instr, access.readsItself = false)
    (notStore : instr ≠ .mviM) : quiet (length - 1) (machine.accessesOf instr) = true := by
  by_cases byte : machine.operandByte ∈ machine.accessesOf instr
  · -- the one read that looks like an opcode fetch is the second byte of the table's length
    obtain store | ⟨single, whole⟩ := machine.operandByte_mem instr byte
    · exact absurd store notStore
    · have two : length - 1 = 1 := by
        rcases lengths with same | ⟨_, rfl | rfl⟩
        · omega
        · simp [Instr.operandBytes] at single
        · simp [Instr.operandBytes] at single
      rw [whole, two]
      rfl
  · apply quiet_of_forall
    intro access listed
    apply machine.accessesOf_startsInstruction instr access listed (separate access listed)
    rintro rfl
    exact byte listed

/-- An instruction that reads regularly, and not itself, keeps the byte counter in phase. -/
theorem inPhase_of_regular (machine : Machine δ) (separate : machine.readsItself = false)
    (regular : machine.regular = true) : machine.InPhase := by
  have reads := machine.accesses_operandEvents
  have lengths := getLength_eq machine.opcode
  obtain ⟨notStore, followed⟩ : decode machine.opcode ≠ .mviM ∧ machine.branchNotTaken = false := by
    simpa [Machine.regular] using regular
  have apart : ∀ access ∈ machine.fetched.accessesOf (decode machine.opcode),
      access.readsItself = false := by
    rw [← reads]
    simpa [Machine.readsItself] using separate
  have taken : ∀ cc, decode machine.opcode = .jcc cc ∨ decode machine.opcode = .ccc cc →
      machine.fetched.cpu.flags.test cc = true := by
    intro cc branch
    change machine.cpu.flags.test cc = true
    unfold branchNotTaken at followed
    rcases branch with jump | call
    · rw [jump] at followed
      simpa using followed
    · rw [call] at followed
      simpa using followed
  have bytes := machine.fetched.operandBytes_le_accessesOf (decode machine.opcode) taken
  constructor
  · rw [reads]
    exact machine.fetched.quiet_accessesOf _ _ lengths apart notStore
  · rw [reads]
    omega

end Machine

namespace Instrumentation

variable {δ : Type} [Chips δ]

/-- A free run: the hooks fed with the callbacks of one instruction after another. The run is
given by the machine before each instruction, so that it does not matter what the board does
between two instructions. -/
def freeRun (inst : Instrumentation) (run : List (Machine δ)) : Instrumentation :=
  run.foldl freeInstruction inst

/-- The same instructions, each executed by `stepInstructionDetailed`. -/
def stepRun (inst : Instrumentation) (run : List (Machine δ)) : Instrumentation :=
  run.foldl stepInstructionDetailed inst

/-- Recording is on, no step is under way and the byte counter has run out. -/
structure Idle (inst : Instrumentation) : Prop where
  /-- Recording is on. -/
  enabled : inst.instrumentationEnabled = true
  /-- No step is under way. -/
  stepping : inst.steppingInProgress = false
  /-- The byte counter has run out. -/
  window : inst.fetchRemaining = 0

/-- The two paths between instructions: same counters, and the detector is idle. -/
structure Agree (free step : Instrumentation) : Prop where
  /-- The free run waits for an opcode fetch. -/
  idle : free.Idle
  /-- Recording is on in the step path as well. -/
  enabled : step.instrumentationEnabled = true
  /-- Same execution counters. -/
  executeCount : free.executeCount = step.executeCount
  /-- Same access map. -/
  runtimeAccessMap : free.runtimeAccessMap = step.runtimeAccessMap

/-- The two paths inside the instruction at `pc`: same window, and the free run has already
counted the instruction. -/
structure InWindow (pc : Word) (free step : Instrumentation) : Prop where
  /-- Recording is on in the free run. -/
  freeEnabled : free.instrumentationEnabled = true
  /-- Recording is on in the step path. -/
  stepEnabled : step.instrumentationEnabled = true
  /-- The free run is not stepping. -/
  freeStepping : free.steppingInProgress = false
  /-- The step path is. -/
  stepStepping : step.steppingInProgress = true
  /-- Same number of bytes left. -/
  window : free.fetchRemaining = step.fetchRemaining
  /-- The instruction is counted at its start in the free run, and at its end in a step. -/
  executeCount : free.executeCount =
    Function.update step.executeCount pc (step.executeCount pc + 1)
  /-- Same access map. -/
  runtimeAccessMap : free.runtimeAccessMap = step.runtimeAccessMap

omit [Chips δ] in
theorem detect_stepping (inst : Instrumentation) (virt : Nat) (stack : Bool) (value : Byte)
    (pc : Word) (stepping : inst.steppingInProgress = true) :
    inst.detect virt stack value pc = inst := by
  simp [detect, startsInstruction, stepping]

omit [Chips δ] in
theorem detect_of_quiet (inst : Instrumentation) (virt : Nat) (stack fetch : Bool) (value : Byte)
    (pc : Word) (calm : quiet inst.fetchRemaining [{ virt, stack, fetch, pc }] = true) :
    inst.detect virt stack value pc = inst := by
  unfold detect
  split
  · rename_i detected
    simp only [startsInstruction, Bool.and_eq_true, beq_iff_eq] at detected
    obtain ⟨⟨⟨_, zero⟩, notStack⟩, next⟩ := detected
    rw [zero] at calm
    simp [quiet, Access.startsInstruction, notStack, next] at calm
  · rfl

omit [Chips δ] in
/-- One callback inside an instruction, when it does not look like an opcode fetch. -/
theorem observe_inWindow {pc : Word} {free step : Instrumentation} (event : BusEvent)
    (related : InWindow pc free step)
    (calm : quiet free.fetchRemaining (accesses [event]) = true) :
    InWindow pc (free.observe event) (step.observe event) ∧
      (free.observe event).fetchRemaining =
        free.fetchRemaining - (accesses [event]).length := by
  obtain ⟨freeEnabled, stepEnabled, freeStepping, stepStepping, window, executeCount,
    runtimeAccessMap⟩ := related
  cases event with
  | read virt phys stack fetch value readPc =>
    have undetected := free.detect_of_quiet virt stack fetch value readPc calm
    simp only [observe, onMemoryRead, freeEnabled, stepEnabled, undetected,
      step.detect_stepping virt stack value readPc stepStepping, Bool.not_true, Bool.false_eq_true,
      ↓reduceIte]
    constructor
    · constructor <;>
        simp [recordRead, logAccess, freeEnabled, stepEnabled, freeStepping, stepStepping, window,
          executeCount, runtimeAccessMap]
    · simp [recordRead, logAccess]
  | write virt phys stack value writePc =>
    constructor
    · constructor <;>
        simp [observe, onMemoryWrite, logAccess, freeEnabled, stepEnabled, freeStepping,
          stepStepping, window, executeCount, runtimeAccessMap]
    · simp [observe, onMemoryWrite, logAccess, freeEnabled]
  | input port value =>
    constructor
    · constructor <;>
        simp [observe, onIoInput, freeEnabled, stepEnabled, freeStepping, stepStepping, window,
          executeCount, runtimeAccessMap]
    · simp [observe, onIoInput, freeEnabled]
  | output port value =>
    constructor
    · constructor <;>
        simp [observe, onIoOutput, freeEnabled, stepEnabled, freeStepping, stepStepping, window,
          executeCount, runtimeAccessMap]
    · simp [observe, onIoOutput, freeEnabled]

theorem quiet_append (remaining : Nat) (front back : List Access) :
    quiet remaining (front ++ back) =
      (quiet remaining front && quiet (remaining - front.length) back) := by
  induction front generalizing remaining with
  | nil => simp [quiet]
  | cons access front inductionHypothesis =>
    cases remaining with
    | zero =>
      simp only [List.cons_append, quiet, inductionHypothesis, Nat.zero_sub, Bool.and_assoc]
    | succ remaining =>
      simp only [List.cons_append, quiet, inductionHypothesis, List.length_cons,
        Nat.add_sub_add_right]

omit [Chips δ] in
/-- The callbacks of a quiet instruction after its opcode fetch. -/
theorem observeAll_inWindow {pc : Word} (events : List BusEvent) :
    ∀ {free step : Instrumentation}, InWindow pc free step →
      quiet free.fetchRemaining (accesses events) = true →
      InWindow pc (free.observeAll events) (step.observeAll events) ∧
        (free.observeAll events).fetchRemaining =
          free.fetchRemaining - (accesses events).length := by
  induction events with
  | nil =>
    intro free step related calm
    exact ⟨related, rfl⟩
  | cons event events inductionHypothesis =>
    intro free step related calm
    have split : accesses (event :: events) = accesses [event] ++ accesses events := by
      rw [← accesses_append]
      rfl
    rw [split, quiet_append, Bool.and_eq_true] at calm
    obtain ⟨now, remaining⟩ := observe_inWindow event related calm.1
    obtain ⟨later, rest⟩ := inductionHypothesis now (by rw [remaining]; exact calm.2)
    refine ⟨later, ?_⟩
    rw [split, List.length_append]
    calc ((free.observe event).observeAll events).fetchRemaining
        = (free.observe event).fetchRemaining - (accesses events).length := rest
      _ = free.fetchRemaining - (accesses [event]).length - (accesses events).length := by
          rw [remaining]
      _ = _ := Nat.sub_sub ..

omit [Chips δ] in
/-- The opcode fetch: detected in the free run, expected in the step path. -/
theorem observe_opcode {free step : Instrumentation} (machine : Machine δ)
    (agree : Agree free step) :
    InWindow machine.cpu.pc (free.observe machine.opcodeEvent)
        ((step.openWindow machine).observe machine.opcodeEvent) ∧
      (free.observe machine.opcodeEvent).fetchRemaining = getLength machine.opcode - 1 := by
  obtain ⟨⟨enabled, stepping, window⟩, stepEnabled, executeCount, runtimeAccessMap⟩ := agree
  have next : BitVec.ofNat 16 (machine.cpu.pc.toNat + 1) = machine.cpu.pc + 1 := by
    simp [BitVec.ofNat_add]
  have peeked : machine.memory.peek machine.cpu.pc.toNat false = machine.opcode :=
    machine.memory.peek_eq_read _ _
  have starts : free.startsInstruction machine.cpu.pc.toNat false (machine.cpu.pc + 1) = true := by
    simp [startsInstruction, stepping, window, next]
  have idle := (step.openWindow machine).detect_stepping machine.cpu.pc.toNat false machine.opcode
    (machine.cpu.pc + 1) rfl
  have freeSide : free.observe machine.opcodeEvent =
      (free.detect machine.cpu.pc.toNat false machine.opcode (machine.cpu.pc + 1)).recordRead
        machine.cpu.pc.toNat (machine.memory.read machine.cpu.pc.toNat false).2 false
        machine.opcode := by
    simp only [observe, Machine.opcodeEvent, onMemoryRead, enabled, Bool.not_true,
      Bool.false_eq_true, ↓reduceIte]
  have stepSide : (step.openWindow machine).observe machine.opcodeEvent =
      (step.openWindow machine).recordRead machine.cpu.pc.toNat
        (machine.memory.read machine.cpu.pc.toNat false).2 false machine.opcode := by
    have recording : (step.openWindow machine).instrumentationEnabled = true := stepEnabled
    simp only [observe, Machine.opcodeEvent, onMemoryRead, recording, idle, Bool.not_true,
      Bool.false_eq_true, ↓reduceIte]
  rw [freeSide, stepSide]
  unfold detect
  rw [if_pos starts]
  constructor
  · constructor <;>
      simp [recordRead, logAccess, openWindow, enabled, stepEnabled, stepping, executeCount,
        runtimeAccessMap, peeked]
  · simp [recordRead, logAccess]

/-- One instruction keeps the two paths in agreement. -/
theorem instruction_agree {free step : Instrumentation} (machine : Machine δ)
    (agree : Agree free step) (phase : machine.InPhase) :
    Agree (free.freeInstruction machine) (step.stepInstructionDetailed machine) := by
  obtain ⟨begun, bytes⟩ := observe_opcode machine agree
  obtain ⟨done, left⟩ := observeAll_inWindow machine.operandEvents begun
    (by rw [bytes]; exact phase.quiet)
  have freeSide : free.freeInstruction machine =
      (free.observe machine.opcodeEvent).observeAll machine.operandEvents := by
    unfold freeInstruction
    rw [machine.events_eq]
    rfl
  have stepSide : (step.openWindow machine).observeAll machine.events =
      ((step.openWindow machine).observe machine.opcodeEvent).observeAll
        machine.operandEvents := by
    rw [machine.events_eq]
    rfl
  unfold stepInstructionDetailed
  rw [freeSide, stepSide]
  have enough := phase.enough
  have closed : ((free.observe machine.opcodeEvent).observeAll
      machine.operandEvents).fetchRemaining = 0 := by
    rw [left, bytes]
    omega
  constructor
  · exact ⟨done.freeEnabled, done.freeStepping, closed⟩
  all_goals rw [closeWindow_countInstruction _ machine done.stepEnabled]
  · exact done.stepEnabled
  · exact done.executeCount
  · exact done.runtimeAccessMap

/-- A whole run keeps the two paths in agreement. -/
theorem run_agree (run : List (Machine δ)) :
    ∀ {free step : Instrumentation}, Agree free step → (∀ machine ∈ run, machine.InPhase) →
      Agree (free.freeRun run) (step.stepRun run) := by
  induction run with
  | nil =>
    intro free step agree phase
    exact agree
  | cons machine run inductionHypothesis =>
    intro free step agree phase
    have first := instruction_agree machine agree (phase machine (List.mem_cons_self ..))
    exact inductionHypothesis first fun later listed =>
      phase later (List.mem_cons_of_mem machine listed)

omit [Chips δ] in
theorem observe_executeCount (inst : Instrumentation) (event : BusEvent)
    (stepping : inst.steppingInProgress = true) :
    (inst.observe event).executeCount = inst.executeCount := by
  cases event with
  | read virt phys stack fetch value pc =>
    simp only [observe, onMemoryRead, inst.detect_stepping virt stack value pc stepping]
    split <;> rfl
  | write virt phys stack value pc => simp only [observe, onMemoryWrite]; split <;> rfl
  | input port value => simp only [observe, onIoInput]; split <;> rfl
  | output port value => simp only [observe, onIoOutput]; split <;> rfl

omit [Chips δ] in
theorem observeAll_executeCount (events : List BusEvent) :
    ∀ (inst : Instrumentation), inst.steppingInProgress = true →
      (inst.observeAll events).executeCount = inst.executeCount := by
  induction events with
  | nil => exact fun inst stepping => rfl
  | cons event events inductionHypothesis =>
    intro inst stepping
    have rest := inductionHypothesis (inst.observe event) (by simpa using stepping)
    exact rest.trans (inst.observe_executeCount event stepping)

/-- A step counts its instruction once and no other. -/
theorem stepInstructionDetailed_executeCount (inst : Instrumentation) (machine : Machine δ)
    (enabled : inst.instrumentationEnabled = true) :
    (inst.stepInstructionDetailed machine).executeCount =
        Function.update inst.executeCount machine.cpu.pc (inst.executeCount machine.cpu.pc + 1) ∧
      (inst.stepInstructionDetailed machine).instrumentationEnabled = true := by
  have count := observeAll_executeCount machine.events (inst.openWindow machine) rfl
  have recording : ((inst.openWindow machine).observeAll
      machine.events).instrumentationEnabled = true :=
    (observeAll_instrumentationEnabled _ _).trans enabled
  have kept : ((inst.openWindow machine).observeAll machine.events).executeCount =
      inst.executeCount := count
  unfold stepInstructionDetailed
  rw [closeWindow_countInstruction _ machine recording]
  exact ⟨by rw [kept], recording⟩

/-- A stepped run counts each address as often as an instruction was fetched there. -/
theorem stepRun_executeCount (run : List (Machine δ)) (addr : Word) :
    ∀ (inst : Instrumentation), inst.instrumentationEnabled = true →
      (inst.stepRun run).executeCount addr =
        inst.executeCount addr + run.countP (fun machine => machine.cpu.pc == addr) := by
  induction run with
  | nil =>
    intro inst enabled
    rfl
  | cons machine run inductionHypothesis =>
    intro inst enabled
    obtain ⟨count, still⟩ := inst.stepInstructionDetailed_executeCount machine enabled
    have rest := inductionHypothesis (inst.stepInstructionDetailed machine) still
    calc (inst.stepRun (machine :: run)).executeCount addr
        = (inst.stepInstructionDetailed machine).executeCount addr +
            run.countP (fun machine => machine.cpu.pc == addr) := rest
      _ = _ := by
          rw [count, List.countP_cons]
          by_cases here : machine.cpu.pc = addr
          · subst here
            simp
            omega
          · simp [here, Function.update_of_ne (Ne.symm here)]

/-- Free run and step path account the same instructions identically, from the same idle
state, when no instruction reads itself, stores an immediate byte in memory or is a
conditional jump or call that is not taken. -/
theorem freeRun_eq_stepRun (inst : Instrumentation) (run : List (Machine δ)) (idle : inst.Idle)
    (separate : ∀ machine ∈ run, machine.readsItself = false)
    (regular : ∀ machine ∈ run, machine.regular = true) :
    (inst.freeRun run).executeCount = (inst.stepRun run).executeCount ∧
      (inst.freeRun run).runtimeAccessMap = (inst.stepRun run).runtimeAccessMap ∧
      ∀ addr, (inst.freeRun run).executeCount addr =
        inst.executeCount addr + run.countP (fun machine => machine.cpu.pc == addr) := by
  have phase : ∀ machine ∈ run, machine.InPhase := fun machine listed =>
    machine.inPhase_of_regular (separate machine listed) (regular machine listed)
  have agree := run_agree run ⟨idle, idle.enabled, rfl, rfl⟩ phase
  refine ⟨agree.executeCount, agree.runtimeAccessMap, fun addr => ?_⟩
  rw [agree.executeCount]
  exact stepRun_executeCount run addr inst idle.enabled

/-- The conditions of `freeRun_eq_stepRun` hold of a jump, an immediate load and a call. -/
theorem freeRun_eq_stepRun_jump :
    let start := Machine.powerOn () [0xc3, 0x05, 0x00, 0x00, 0x00, 0x3e, 0x42, 0xcd, 0x00, 0x00]
    let run := [start, start.next, start.next.next]
    (init.freeRun run).executeCount = (init.stepRun run).executeCount ∧
      (init.freeRun run).runtimeAccessMap = (init.stepRun run).runtimeAccessMap ∧
      ∀ addr, (init.freeRun run).executeCount addr =
        init.executeCount addr + run.countP (fun machine => machine.cpu.pc == addr) :=
  freeRun_eq_stepRun init _ ⟨rfl, rfl, rfl⟩ (by decide) (by decide)

/-- After a jump that is not taken the free run takes the next opcode for an operand: the
instruction at `0003h` is never counted there. -/
theorem freeRun_misses_after_branch :
    let start := Machine.powerOn () [0xca, 0x00, 0x01, 0x00]
    let run := [start, start.next]
    init.Idle ∧ (∀ machine ∈ run, machine.readsItself = false) ∧
      run.countP (fun machine => machine.cpu.pc == 0x0003) = 1 ∧
      (init.stepRun run).executeCount 0x0003 = 1 ∧
      (init.freeRun run).executeCount 0x0003 = 0 := by
  refine ⟨⟨rfl, rfl, rfl⟩, ?_⟩
  decide

end Instrumentation

end VectorDebugger

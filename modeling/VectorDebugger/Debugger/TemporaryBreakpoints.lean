import VectorDebugger.Debugger.LoopSteps
import VectorDebugger.Debugger.Commands
import VectorDebugger.Debugger.OpcodeInfo

/-!
# Temporary breakpoints

`requestSkipInstruction` and `traceFunction` add a breakpoint, run, and remove it again, through
commands that the emulation thread executes between its own steps. The table of breakpoints is
seen here as a lookup by address, so that a call is judged by what each of its commands does to
that lookup. An addition fails where any breakpoint stands, also a disabled one, and a removal
takes whatever stands there.
-/

namespace VectorDebugger

namespace DebugBackend

variable {δ : Type}

/-! ### The table as a lookup -/

/-- The enabled flag of the breakpoint at an address, if there is one. -/
def flagAt (backend : DebugBackend δ) (address : Word) : Option Bool :=
  (backend.findBreakpointByAddress address).map (·.2.enabled)

/-- `DebugBackend::hasBreakpoint`. -/
def hasBreakpoint (backend : DebugBackend δ) (address : Word) : Bool :=
  match backend.findBreakpointByAddress address with
  | none => false
  | some found => found.2.enabled

/-- Ids and addresses are not used twice, and no id is used that is yet to be given. -/
structure TableOk (backend : DebugBackend δ) : Prop where
  /-- `nextId_` is fresh. -/
  fresh : ∀ entry ∈ backend.breakpoints, entry.1 < backend.nextId
  /-- Ids are keys. -/
  ids : (backend.breakpoints.map (·.1)).Nodup
  /-- And so are addresses. -/
  addresses : (backend.breakpoints.map (·.2.address)).Nodup

/-- The table with the next id. -/
def table (backend : DebugBackend δ) : List (Nat × DebuggerBreakpoint) × Nat :=
  (backend.breakpoints, backend.nextId)

theorem hasBreakpoint_eq (backend : DebugBackend δ) (address : Word) :
    backend.hasBreakpoint address = (backend.flagAt address).getD false := by
  unfold hasBreakpoint flagAt
  cases backend.findBreakpointByAddress address <;> rfl

theorem flagAt_of_table {backend after : DebugBackend δ} (same : after.table = backend.table)
    (address : Word) : after.flagAt address = backend.flagAt address := by
  have breakpoints : after.breakpoints = backend.breakpoints := congrArg Prod.fst same
  unfold flagAt findBreakpointByAddress
  rw [breakpoints]

theorem TableOk.of_table {backend after : DebugBackend δ} (ok : backend.TableOk)
    (same : after.table = backend.table) : after.TableOk := by
  have breakpoints : after.breakpoints = backend.breakpoints := congrArg Prod.fst same
  have nextId : after.nextId = backend.nextId := congrArg Prod.snd same
  refine ⟨?_, ?_, ?_⟩
  · rw [breakpoints, nextId]
    exact ok.fresh
  · rw [breakpoints]
    exact ok.ids
  · rw [breakpoints]
    exact ok.addresses

theorem tableOk_init (chips : δ) (boot : List Byte) (files : Text → List Byte) :
    (init chips boot files).TableOk :=
  ⟨nofun, List.nodup_nil, List.nodup_nil⟩

/-- An addition takes a free address and leaves every other alone. -/
theorem flagAt_addBreakpoint (backend : DebugBackend δ) (address other : Word) :
    (backend.addBreakpoint address).1.flagAt other =
      if other = address then some ((backend.flagAt address).getD true)
      else backend.flagAt other := by
  unfold addBreakpoint
  cases found : backend.findBreakpointByAddress address with
  | some entry =>
    rw [Option.isSome_some, if_pos rfl]
    split
    · rename_i here
      rw [here]
      unfold flagAt
      rw [found]
      rfl
    · rfl
  | none =>
    rw [Option.isSome_none, if_neg nofun]
    unfold flagAt findBreakpointByAddress at *
    dsimp only
    rw [List.find?_append, found]
    split
    · rename_i here
      rw [here, found]
      simp
    · rename_i elsewhere
      have apart : address ≠ other := fun same => elsewhere same.symm
      simp [apart]

theorem TableOk.addBreakpoint {backend : DebugBackend δ} (ok : backend.TableOk) (address : Word) :
    (backend.addBreakpoint address).1.TableOk := by
  unfold DebugBackend.addBreakpoint
  cases found : backend.findBreakpointByAddress address with
  | some entry => exact ok
  | none =>
    have absent : ∀ entry ∈ backend.breakpoints, entry.2.address ≠ address := by
      intro entry listed same
      have none := List.find?_eq_none.mp found entry listed
      exact none (decide_eq_true same)
    refine ⟨fun entry listed => ?_, ?_, ?_⟩
    · rcases List.mem_append.mp listed with old | new
      · exact Nat.lt_succ_of_lt (ok.fresh entry old)
      · rw [List.mem_singleton.mp new]
        exact Nat.lt_succ_self _
    · rw [if_neg nofun]
      dsimp only
      rw [List.map_append, List.nodup_append]
      refine ⟨ok.ids, List.nodup_singleton _, fun id old other new => ?_⟩
      obtain ⟨entry, listed, rfl⟩ := List.mem_map.mp old
      rw [List.mem_singleton.mp new]
      exact Nat.ne_of_lt (ok.fresh entry listed)
    · rw [if_neg nofun]
      dsimp only
      rw [List.map_append, List.nodup_append]
      refine ⟨ok.addresses, List.nodup_singleton _, fun place old other new => ?_⟩
      obtain ⟨entry, listed, rfl⟩ := List.mem_map.mp old
      rw [List.mem_singleton.mp new]
      exact absent entry listed

/-- A removal frees the address, whatever stood there, and leaves every other alone. -/
theorem flagAt_removeBreakpoint (backend : DebugBackend δ) (ok : backend.TableOk)
    (address other : Word) :
    (backend.removeBreakpoint address).1.flagAt other =
      if other = address then none else backend.flagAt other := by
  unfold removeBreakpoint
  cases found : backend.findBreakpointByAddress address with
  | none =>
    have absent : backend.flagAt address = none := by
      unfold flagAt
      rw [found]
      rfl
    by_cases here : other = address
    · rw [if_pos here, here]
      exact absent
    · rw [if_neg here]
  | some entry =>
    have listed : entry ∈ backend.breakpoints := List.mem_of_find?_eq_some found
    have place : entry.2.address = address := by
      unfold findBreakpointByAddress at found
      simpa using List.find?_some found
    -- the entry found is the only one with its id and the only one at its address
    have only : ∀ other ∈ backend.breakpoints,
        other.1 = entry.1 ↔ other.2.address = address := by
      intro other there
      constructor
      · intro id
        rw [List.inj_on_of_nodup_map ok.ids there listed id]
        exact place
      · intro same
        rw [List.inj_on_of_nodup_map ok.addresses there listed (same.trans place.symm)]
    have kept : (backend.breakpoints.filter (·.1 ≠ entry.1)).find? (·.2.address = other) =
        if other = address then none else backend.breakpoints.find? (·.2.address = other) := by
      rw [List.filter_congr (q := fun found => decide (found.2.address ≠ address))
        fun found there => decide_eq_decide.mpr (not_congr (only found there)), List.find?_filter]
      split
      · rename_i here
        simp [here]
      · rename_i elsewhere
        congr
        funext found
        by_cases here : found.2.address = other
        · simp [here, elsewhere]
        · simp [here]
    unfold flagAt findBreakpointByAddress
    dsimp only
    rw [kept]
    split <;> rfl

theorem TableOk.removeBreakpoint {backend : DebugBackend δ} (ok : backend.TableOk)
    (address : Word) : (backend.removeBreakpoint address).1.TableOk := by
  unfold DebugBackend.removeBreakpoint
  split
  · exact ok
  · refine ⟨fun entry listed => ok.fresh entry (List.mem_of_mem_filter listed), ?_, ?_⟩
    · exact ok.ids.sublist (List.filter_sublist.map _)
    · exact ok.addresses.sublist (List.filter_sublist.map _)

/-! ### What the steps of the loop leave alone -/

variable [Chips δ]

theorem stepInstruction_table (backend : DebugBackend δ) :
    backend.stepInstruction.table = backend.table := by
  unfold table stepInstruction
  rfl

theorem executeCommand_table (backend : DebugBackend δ) (command : Command)
    (other : command.editsBreakpoints = false) :
    (backend.executeCommand command).1.table = backend.table := by
  cases command with
  | addBreakpoint | removeBreakpoint | setBreakpointEnabled | clearBreakpoints =>
    exact absurd other nofun
  | memoryWrite address data =>
    refine whenPaused_keeps table _ _ _ ?_
    exact writeMemory_keeps table (fun _ _ _ => rfl) backend address data
  | registerWrite | ioWrite => exact whenPaused_keeps table _ _ _ rfl
  | executeTrace params =>
    unfold executeCommand
    dsimp only
    split
    · rfl
    · exact traceLoop_keeps table stepInstruction_table params _ _ _
  | step => exact backend.stepInstruction_table
  | _ => rfl

theorem processCommand_table (backend : DebugBackend δ) (queued : QueuedCommand)
    (other : queued.command.editsBreakpoints = false) :
    (backend.processCommand queued).backend.table = backend.table := by
  unfold processCommand
  split
  · rfl
  · split
    · rfl
    · split
      · rfl
      · rfl
      · exact executeCommand_table _ _ rfl
      · exact backend.executeCommand_table _ other

/-- The breakpoint table is edited by commands only. -/
theorem loopStep_table {backend after : DebugBackend δ} {action : LoopAction}
    (step : backend.LoopStep action after)
    (others : ∀ queued, action = .take queued → queued.command.editsBreakpoints = false) :
    after.table = backend.table := by
  unfold LoopStep loopStep at step
  cases action with
  | raise signals =>
    cases step
    rfl
  | resume =>
    obtain ⟨_, same⟩ := Option.ite_none_right_eq_some.mp step
    cases same
    exact resumeFrames_keeps table (fun _ => rfl) (fun _ _ => rfl) stepInstruction_table backend
  | frame atPoll =>
    obtain ⟨_, same⟩ := Option.ite_none_right_eq_some.mp step
    cases same
    have polled : ∀ backend : DebugBackend δ, backend.poll.table = backend.table := by
      intro backend
      unfold poll
      split_ifs <;> rfl
    have executed : ∀ backend : DebugBackend δ, backend.executeFrame.2.table = backend.table :=
      fun backend => rfl
    exact (executed _).trans (polled _)
  | stop stuck =>
    dsimp only at step
    split_ifs at step <;> · cases step; rfl
  | leave =>
    dsimp only at step
    split_ifs at step
    cases step
    rfl
  | quitFrames | quit =>
    obtain ⟨_, same⟩ := Option.ite_none_right_eq_some.mp step
    cases same
    rfl
  | take queued =>
    cases step
    exact processCommand_table _ _ (others queued rfl)

theorem processCommand_quitRequested (backend : DebugBackend δ) (queued : QueuedCommand)
    (quit : backend.quitRequested = true) :
    (backend.processCommand queued).backend.quitRequested = true := by
  unfold processCommand
  split
  · exact quit
  · split
    · exact quit
    · split
      · rfl
      · exact quit
      · exact (executeCommand_quitRequested _ _).trans quit
      · exact (backend.executeCommand_quitRequested _).trans quit

/-- A request to quit is never taken back. -/
theorem loopStep_quitRequested {backend after : DebugBackend δ} {action : LoopAction}
    (step : backend.LoopStep action after) (quit : backend.quitRequested = true) :
    after.quitRequested = true := by
  unfold LoopStep loopStep at step
  cases action with
  | raise signals =>
    cases step
    show (backend.quitRequested || signals.quit) = true
    rw [quit, Bool.true_or]
  | resume =>
    obtain ⟨_, same⟩ := Option.ite_none_right_eq_some.mp step
    cases same
    have steering := resumeFrames_keeps steering (fun _ => rfl) (fun _ _ => rfl)
      stepInstruction_steering backend
    exact (congrArg (·.2.2) steering).trans quit
  | frame atPoll =>
    obtain ⟨goesOn, _⟩ := Option.ite_none_right_eq_some.mp step
    rw [quit, Bool.not_true, Bool.and_false] at goesOn
    cases goesOn
  | stop stuck =>
    dsimp only at step
    split_ifs at step <;> · cases step; exact quit
  | leave =>
    dsimp only at step
    split_ifs at step
    cases step
    exact quit
  | quitFrames | quit =>
    obtain ⟨_, same⟩ := Option.ite_none_right_eq_some.mp step
    cases same
    exact quit
  | take queued =>
    cases step
    exact backend.processCommand_quitRequested queued quit

end DebugBackend

/-! ### The calls -/

/-- Where the run stands that a call asked for. -/
inductive RunPhase
  | before | going | stopped
deriving DecidableEq, Repr

/-- The phase once `running_` has this value. -/
def RunPhase.seen (phase : RunPhase) (running : Bool) : RunPhase :=
  if phase = .going ∧ running = false then .stopped else phase

/-- A statement of a client thread that meets the emulation thread. -/
inductive ClientStep
  /-- A command is put in the queue, and its end awaited. -/
  | request (request : Commands.Request)
  /-- `pauseFuture.wait()`. -/
  | waitForPause
  /-- `if (!backend_.isPaused())` of `traceFunction`, with what follows either way. -/
  | tracePaused (address : Word)
  /-- `stopReason_ = StopReason::Skip`. -/
  | reportSkip
deriving DecidableEq, Repr

namespace ClientStep

/-- `requestAddBreakpoint`. -/
def add (address : Word) : ClientStep := .request (.submitAndWait (.addBreakpoint address))

/-- `requestRemoveBreakpoint`. -/
def remove (address : Word) : ClientStep := .request (.submitAndWait (.removeBreakpoint address))

end ClientStep

/-- `DebugBackend::requestSkipInstruction`, by what it has read of the machine and of the
breakpoints. -/
def requestSkipInstruction (pc : Word) (opcode : Byte) (hasBreakpoint : Word → Bool) :
    List ClientStep :=
  let nextAddr := pc + BitVec.ofNat 16 (getLength opcode)
  let added := !hasBreakpoint nextAddr
  (if added then [.add nextAddr] else []) ++ [.request (.submitAndWait .run)] ++
    (if added then [.remove nextAddr] else []) ++ [.reportSkip]

/-- `AgentApi::traceFunction`, as far as the backend sees it. -/
def traceFunction (address : Word) : List ClientStep :=
  [.add address, .request .requestRunFuture, .waitForPause, .tracePaused address]

/-- The parameters that `traceFunction` sets. -/
def traceFunctionParams : TraceExecutionParams where
  maxInstructions := 10000
  stopOnRet := true
  stopOnCallerReturn := false
  callerReturnAddress := 0

/-- What `traceFunction` does after `isPaused`. -/
def afterPause (address : Word) (paused : Bool) : List ClientStep :=
  if paused then [.request (.requestExecuteTrace traceFunctionParams), .remove address]
  else [.remove address]

/-- The backend as a call sees it. -/
structure Call (δ : Type) where
  /-- The backend. -/
  backend : DebugBackend δ
  /-- The run that the call asked for. -/
  phase : RunPhase

/-- What happened in one step of a call. -/
inductive CallEvent
  /-- A step of the emulation thread that is not for this call. -/
  | loop (action : LoopAction)
  /-- A command of the call was executed. -/
  | took (command : Command)
  /-- A command of the call was cancelled, or refused, and never executed. -/
  | dropped (command : Command)
  /-- A statement of the client thread alone. -/
  | client
deriving DecidableEq, Repr

/-- An event with what it left. -/
structure Moment (δ : Type) where
  /-- The event. -/
  event : CallEvent
  /-- The backend after it. -/
  after : Call δ

/-- A call from some statement on: the client thread and the emulation thread in any order,
with every moment up to its return. -/
inductive Calls {δ : Type} [Chips δ] :
    List ClientStep → Call δ → List (Moment δ) → Call δ → Prop
  | /-- The call returns. -/
    done (call : Call δ) : Calls [] call [] call
  | /-- The emulation thread takes a step. Other clients leave the breakpoints alone. -/
    loop {steps : List ClientStep} {call final : Call δ} {moments : List (Moment δ)}
      (action : LoopAction) (backend : DebugBackend δ)
      (step : call.backend.LoopStep action backend)
      (others : ∀ queued, action = .take queued → queued.command.editsBreakpoints = false)
      (rest : Calls steps { backend, phase := call.phase.seen backend.running } moments final) :
      Calls steps call
        ({ event := .loop action
           after := { backend, phase := call.phase.seen backend.running } } :: moments) final
  | /-- The emulation thread executes the command of the call. -/
    took {steps : List ClientStep} {call final : Call δ} {moments : List (Moment δ)}
      (request : Commands.Request) (backend : DebugBackend δ) (phase : RunPhase)
      (goesOn : call.backend.quitRequested = false)
      (step : (call.backend.processCommand
        { command := request.command, withdrawn := false }).backend = backend)
      (next : phase =
        if request.command = .run then .going else call.phase.seen backend.running)
      (rest : Calls steps { backend, phase } moments final) :
      Calls (.request request :: steps) call
        ({ event := .took request.command, after := { backend, phase } } :: moments) final
  | /-- The command is never executed, because its submitter timed out or because the debugger
    quits. A trace that is refused breaks its promise, and the exception ends the call. -/
    dropped {steps : List ClientStep} {call final : Call δ} {moments : List (Moment δ)}
      (request : Commands.Request)
      (refused : request.timesOut = true ∨ call.backend.quitRequested = true)
      (rest : Calls (if request.carriesTrace then [] else steps) call moments final) :
      Calls (.request request :: steps) call
        ({ event := .dropped request.command, after := call } :: moments) final
  | /-- The pause promise is fulfilled when the run has stopped, and broken when its command was
    refused. -/
    waited {steps : List ClientStep} {call final : Call δ} {moments : List (Moment δ)}
      (finished : call.phase ≠ .going ∨ call.backend.quitRequested = true)
      (rest : Calls steps call moments final) :
      Calls (.waitForPause :: steps) call ({ event := .client, after := call } :: moments) final
  | /-- `isPaused` decides how `traceFunction` goes on. -/
    decided {steps : List ClientStep} {call final : Call δ} {moments : List (Moment δ)}
      (address : Word)
      (rest : Calls (afterPause address (call.backend.state = .paused) ++ steps) call moments
        final) :
      Calls (.tracePaused address :: steps) call
        ({ event := .client, after := call } :: moments) final
  | /-- The client writes the stop reason. -/
    reported {steps : List ClientStep} {call final : Call δ} {moments : List (Moment δ)}
      (rest : Calls steps { call with backend := { call.backend with stopReason := .skip } }
        moments final) :
      Calls (.reportSkip :: steps) call
        ({ event := .client
           after := { call with backend := { call.backend with stopReason := .skip } } } ::
          moments) final

/-- A command of the call was executed. -/
def Took {δ : Type} (moments : List (Moment δ)) (command : Command) : Prop :=
  CallEvent.took command ∈ moments.map (·.event)

/-- The breakpoint at the address was taken away while the run went on. -/
def RemovedGoing {δ : Type} (moments : List (Moment δ)) (address : Word) : Prop :=
  ∃ moment ∈ moments, moment.event = .took (.removeBreakpoint address) ∧
    moment.after.phase = .going

/-- While the run goes on, an enabled breakpoint stands at the address. -/
def Call.InForce {δ : Type} (call : Call δ) (address : Word) : Prop :=
  call.phase = .going → call.backend.flagAt address = some true

/-- The table is left as it was found, and the breakpoint at the address is in force as long as
the run goes on. -/
structure LeavesAlone {δ : Type} (address : Word) (start : Call δ) (moments : List (Moment δ))
    (final : Call δ) : Prop where
  /-- The same addresses, with the same flags. -/
  table : ∀ place, final.backend.flagAt place = start.backend.flagAt place
  /-- At every moment of the call. -/
  inForce : ∀ moment ∈ moments, moment.after.InForce address

/-! ### What the emulation thread does meanwhile -/

/-- Steps that are not for this call. -/
structure Quiet {δ : Type} (call : Call δ) (moments : List (Moment δ)) (after : Call δ) :
    Prop where
  /-- The table stays. -/
  table : after.backend.table = call.backend.table
  /-- The run may stop. -/
  phase : after.phase = call.phase ∨ call.phase = .going ∧ after.phase = .stopped
  /-- No command of the call is executed. -/
  loops : ∀ command, CallEvent.took command ∉ moments.map (·.event)
  /-- At every moment the table is as before, and no run begins. -/
  each : ∀ moment ∈ moments, moment.after.backend.table = call.backend.table ∧
    (moment.after.phase = .going → call.phase = .going)
  /-- A request to quit stays. -/
  quit : call.backend.quitRequested = true → after.backend.quitRequested = true

namespace Quiet

variable {δ : Type} {call after : Call δ} {moments : List (Moment δ)}

theorem refl (call : Call δ) : Quiet call [] call :=
  ⟨rfl, .inl rfl, fun _ => List.not_mem_nil, fun _ listed => absurd listed List.not_mem_nil,
    fun quit => quit⟩

/-- A statement of the client thread that leaves the table alone. -/
theorem client {call after : Call δ} (table : after.backend.table = call.backend.table)
    (phase : after.phase = call.phase)
    (quit : after.backend.quitRequested = call.backend.quitRequested) :
    Quiet call [{ event := .client, after }] after := by
  refine ⟨table, .inl phase, fun command listed => ?_, fun moment listed => ?_, quit.trans⟩
  · cases List.mem_singleton.mp listed
  · rw [List.mem_singleton.mp listed]
    exact ⟨table, phase.symm.trans⟩

theorem going (quiet : Quiet call moments after) (going : after.phase = .going) :
    call.phase = .going := by
  rcases quiet.phase with same | ⟨before, _⟩
  · exact same.symm.trans going
  · exact before

theorem flagAt (quiet : Quiet call moments after) (address : Word) :
    after.backend.flagAt address = call.backend.flagAt address :=
  DebugBackend.flagAt_of_table quiet.table address

theorem inForce (quiet : Quiet call moments after) {address : Word}
    (inForce : call.InForce address) :
    (∀ moment ∈ moments, moment.after.InForce address) ∧ after.InForce address := by
  constructor
  · intro moment listed going
    obtain ⟨table, begun⟩ := quiet.each moment listed
    rw [DebugBackend.flagAt_of_table table]
    exact inForce (begun going)
  · intro going
    rw [quiet.flagAt]
    exact inForce (quiet.going going)

theorem not_removedGoing (quiet : Quiet call moments after) (address : Word) :
    ¬ RemovedGoing moments address := by
  rintro ⟨moment, listed, took, _⟩
  exact quiet.loops _ (List.mem_map.mpr ⟨moment, listed, took⟩)

theorem append {middle : Call δ} {others : List (Moment δ)} (first : Quiet call moments middle)
    (second : Quiet middle others after) : Quiet call (moments ++ others) after := by
  refine ⟨second.table.trans first.table, ?_, ?_, ?_, fun quit => second.quit (first.quit quit)⟩
  · rcases second.phase with same | ⟨going, stopped⟩
    · rcases first.phase with before | ⟨before, after⟩
      · exact .inl (same.trans before)
      · exact .inr ⟨before, same.trans after⟩
    · exact .inr ⟨first.going going, stopped⟩
  · intro command listed
    rw [List.map_append] at listed
    rcases List.mem_append.mp listed with early | late
    · exact first.loops command early
    · exact second.loops command late
  · intro moment listed
    rcases List.mem_append.mp listed with early | late
    · exact first.each moment early
    · obtain ⟨same, before⟩ := second.each moment late
      exact ⟨same.trans first.table, fun going => first.going (before going)⟩

end Quiet

namespace Calls

variable {δ : Type} [Chips δ] {steps : List ClientStep} {call final : Call δ}
  {moments : List (Moment δ)}

/-- A call up to the next step of its own. -/
theorem split (run : Calls steps call moments final) :
    ∃ quiet middle acts, moments = quiet ++ acts ∧ Quiet call quiet middle ∧
      Calls steps middle acts final ∧
      ∀ first ∈ acts.head?, ∀ action, first.event ≠ .loop action := by
  induction run with
  | loop action backend step others rest inductionHypothesis =>
    rename_i steps call final moments
    obtain ⟨quiet, middle, acts, whole, isQuiet, goesOn, own⟩ := inductionHypothesis
    have table := DebugBackend.loopStep_table step others
    have begun : call.phase.seen backend.running = call.phase ∨
        call.phase = .going ∧ call.phase.seen backend.running = .stopped := by
      unfold RunPhase.seen
      split
      · rename_i stops
        exact .inr ⟨stops.1, rfl⟩
      · exact .inl rfl
    have goingBefore : call.phase.seen backend.running = .going → call.phase = .going := by
      intro going
      rcases begun with same | ⟨before, _⟩
      · exact same.symm.trans going
      · exact before
    refine ⟨_ :: quiet, middle, acts, by rw [whole]; rfl, ⟨?_, ?_, ?_, ?_, ?_⟩, goesOn, own⟩
    · exact isQuiet.table.trans table
    · rcases isQuiet.phase with same | ⟨going, stopped⟩
      · rcases begun with before | ⟨before, after⟩
        · exact .inl (same.trans before)
        · exact .inr ⟨before, same.trans after⟩
      · exact .inr ⟨goingBefore going, stopped⟩
    · intro command listed
      rcases List.mem_cons.mp listed with here | later
      · cases here
      · exact isQuiet.loops command later
    · intro moment listed
      rcases List.mem_cons.mp listed with rfl | later
      · exact ⟨table, goingBefore⟩
      · obtain ⟨same, before⟩ := isQuiet.each moment later
        exact ⟨same.trans table, fun going => goingBefore (before going)⟩
    · exact fun quit => isQuiet.quit (DebugBackend.loopStep_quitRequested step quit)
  | done call => exact ⟨[], call, [], rfl, .refl call, .done call, by simp⟩
  | took request backend phase goesOn step next rest =>
    exact ⟨[], _, _, rfl, .refl _, .took request backend phase goesOn step next rest, by simp⟩
  | dropped request refused rest =>
    exact ⟨[], _, _, rfl, .refl _, .dropped request refused rest, by simp⟩
  | waited finished rest => exact ⟨[], _, _, rfl, .refl _, .waited finished rest, by simp⟩
  | decided address rest => exact ⟨[], _, _, rfl, .refl _, .decided address rest, by simp⟩
  | reported rest => exact ⟨[], _, _, rfl, .refl _, .reported rest, by simp⟩

/-- What remains to be done once the breakpoint is removed. -/
theorem ends_quiet (run : Calls steps call moments final)
    (tail : steps = [] ∨ steps = [.reportSkip]) : Quiet call moments final := by
  have returned : ∀ {call : Call δ} {moments : List (Moment δ)},
      Calls [] call moments final → Quiet call moments final := by
    intro call moments run
    obtain ⟨quiet, middle, acts, whole, isQuiet, goesOn, own⟩ := run.split
    cases goesOn with
    | done => rwa [whole, List.append_nil]
    | loop action => exact absurd rfl (own _ rfl action)
  rcases tail with rfl | rfl
  · exact returned run
  · obtain ⟨quiet, middle, acts, whole, isQuiet, goesOn, own⟩ := run.split
    cases goesOn with
    | loop action => exact absurd rfl (own _ rfl action)
    | reported rest =>
      rw [whole]
      let written : Call δ :=
        { middle with backend := { middle.backend with stopReason := .skip } }
      exact isQuiet.append ((@Quiet.client δ middle written rfl rfl rfl).append (returned rest))

/-- A command of the call is executed or dropped. -/
theorem request_split {request : Commands.Request}
    (run : Calls (.request request :: steps) call moments final) :
    ∃ quiet middle moment rest, moments = quiet ++ moment :: rest ∧ Quiet call quiet middle ∧
      (moment.event = .took request.command ∧ middle.backend.quitRequested = false ∧
          moment.after.backend = (middle.backend.processCommand
            { command := request.command, withdrawn := false }).backend ∧
          moment.after.phase = (if request.command = .run then .going
            else middle.phase.seen moment.after.backend.running) ∧
          Calls steps moment.after rest final ∨
        moment.event = .dropped request.command ∧ moment.after = middle ∧
          Calls (if request.carriesTrace then [] else steps) middle rest final) := by
  obtain ⟨quiet, middle, acts, whole, isQuiet, goesOn, own⟩ := run.split
  cases goesOn with
  | loop action => exact absurd rfl (own _ rfl action)
  | took _ backend phase goesOn step next rest =>
    exact ⟨quiet, middle, _, _, whole, isQuiet, .inl ⟨rfl, goesOn, step.symm, next, rest⟩⟩
  | dropped _ refused rest =>
    exact ⟨quiet, middle, _, _, whole, isQuiet, .inr ⟨rfl, rfl, rest⟩⟩

end Calls

/-! ### What the commands of a call do to the table -/

theorem took_split {δ : Type} {call middle : Call δ} {quiet rest : List (Moment δ)}
    {moment : Moment δ} (isQuiet : Quiet call quiet middle) (command : Command) :
    Took (quiet ++ moment :: rest) command ↔
      moment.event = .took command ∨ Took rest command := by
  have nothing := isQuiet.loops command
  unfold Took
  rw [List.map_append, List.map_cons, List.mem_append, List.mem_cons, eq_comm]
  tauto

theorem removedGoing_split {δ : Type} {call middle : Call δ} {quiet rest : List (Moment δ)}
    {moment : Moment δ} (isQuiet : Quiet call quiet middle) (address : Word) :
    RemovedGoing (quiet ++ moment :: rest) address ↔
      moment.event = .took (.removeBreakpoint address) ∧ moment.after.phase = .going ∨
        RemovedGoing rest address := by
  have nothing := isQuiet.not_removedGoing address
  unfold RemovedGoing at *
  simp only [List.mem_append, List.mem_cons, or_and_right, exists_or, exists_eq_left]
  exact or_iff_right nothing

theorem inForce_split {δ : Type} {call middle : Call δ} {quiet rest : List (Moment δ)}
    {moment : Moment δ} {address : Word} (isQuiet : Quiet call quiet middle)
    (inForce : call.InForce address) :
    (∀ each ∈ quiet ++ moment :: rest, each.after.InForce address) ↔
      moment.after.InForce address ∧ ∀ each ∈ rest, each.after.InForce address := by
  have before := (isQuiet.inForce inForce).1
  constructor
  · intro each
    exact ⟨each moment (by simp), fun later listed => each later (by simp [listed])⟩
  · rintro ⟨here, after⟩ later listed
    rcases List.mem_append.mp listed with early | late
    · exact before later early
    · rcases List.mem_cons.mp late with rfl | late
      · exact here
      · exact after later late

/-- What the last commands of a call do, for the breakpoint at the address. -/
structure Tail {δ : Type} (address : Word) (call : Call δ) (moments : List (Moment δ))
    (final : Call δ) : Prop where
  /-- A removal frees the address. -/
  here : final.backend.flagAt address =
    if CallEvent.took (.removeBreakpoint address) ∈ moments.map (·.event) then none
    else call.backend.flagAt address
  /-- Every other address is left alone. -/
  elsewhere : ∀ place, place ≠ address →
    final.backend.flagAt place = call.backend.flagAt place
  /-- Only a removal can end the force of the breakpoint. -/
  inForce : call.InForce address →
    ((∀ moment ∈ moments, moment.after.InForce address) ↔ ¬ RemovedGoing moments address)
  /-- Nothing is added. -/
  adds : ¬ Took moments (.addBreakpoint address)
  /-- No run is begun. -/
  runs : ¬ Took moments .run

theorem Quiet.tail {δ : Type} {call final : Call δ} {moments : List (Moment δ)}
    (quiet : Quiet call moments final) (address : Word) : Tail address call moments final where
  here := by
    rw [if_neg (quiet.loops _)]
    exact quiet.flagAt address
  elsewhere place _ := quiet.flagAt place
  inForce inForce := iff_of_true (quiet.inForce inForce).1 (quiet.not_removedGoing address)
  adds := quiet.loops _
  runs := quiet.loops _

namespace Calls

variable {δ : Type} [Chips δ] {steps : List ClientStep} {call final : Call δ}
  {moments : List (Moment δ)} {address : Word}

/-- The removal at the end of a call. -/
theorem remove_tail (ok : call.backend.TableOk)
    (run : Calls (.remove address :: steps) call moments final)
    (tail : steps = [] ∨ steps = [.reportSkip]) : Tail address call moments final := by
  obtain ⟨quiet, middle, moment, rest, rfl, isQuiet, outcome⟩ := run.request_split
  have middleOk := ok.of_table isQuiet.table
  rcases outcome with ⟨event, goesOn, backend, phase, run⟩ | ⟨event, after, run⟩
  · have ends := run.ends_quiet tail
    have flags : ∀ place, moment.after.backend.flagAt place =
        if place = address then none else call.backend.flagAt place := by
      intro place
      rw [backend, ← isQuiet.flagAt place,
        ← middle.backend.flagAt_removeBreakpoint middleOk address place]
      apply DebugBackend.flagAt_of_table
      unfold DebugBackend.processCommand
      rw [goesOn]
      rfl
    refine ⟨?_, fun place elsewhere => ?_, fun inForce => ?_, fun listed => ?_, fun listed => ?_⟩
    · rw [ends.flagAt, flags, if_pos rfl, if_pos]
      exact ((took_split isQuiet _).mpr (.inl event))
    · rw [ends.flagAt, flags, if_neg elsewhere]
    · refine (inForce_split isQuiet inForce).trans ?_
      rw [removedGoing_split isQuiet]
      have later := ends.not_removedGoing address
      have gone : moment.after.backend.flagAt address = none := by rw [flags, if_pos rfl]
      constructor
      · rintro ⟨now, _⟩ (⟨_, going⟩ | removed)
        · exact absurd (gone.symm.trans (now going)) nofun
        · exact later removed
      · intro kept
        have stopped : moment.after.phase ≠ .going := fun going => kept (.inl ⟨event, going⟩)
        have now : moment.after.InForce address := fun going => absurd going stopped
        exact ⟨now, (ends.inForce now).1⟩
    · rcases (took_split isQuiet _).mp listed with here | later
      · rw [event] at here
        cases here
      · exact ends.loops _ later
    · rcases (took_split isQuiet _).mp listed with here | later
      · rw [event] at here
        cases here
      · exact ends.loops _ later
  · have ends := run.ends_quiet tail
    have flags : ∀ place, final.backend.flagAt place = call.backend.flagAt place := fun place =>
      (ends.flagAt place).trans (isQuiet.flagAt place)
    have nothing : ∀ command, ¬ Took (quiet ++ moment :: rest) command := by
      intro command listed
      rcases (took_split isQuiet _).mp listed with here | later
      · rw [event] at here
        cases here
      · exact ends.loops _ later
    refine ⟨?_, fun place _ => flags place, fun inForce => ?_, nothing _, nothing _⟩
    · rw [flags, if_neg]
      exact nothing _
    · refine (inForce_split isQuiet inForce).trans ?_
      rw [after]
      obtain ⟨_, now⟩ := isQuiet.inForce inForce
      refine iff_of_true ⟨now, (ends.inForce now).1⟩ ?_
      rintro ⟨moment, listed, removed, _⟩
      exact nothing _ (List.mem_map.mpr ⟨moment, listed, removed⟩)

/-- After the run has stopped, or the debugger quits, no removal falls into the run. -/
theorem not_removedGoing (run : Calls (.remove address :: steps) call moments final)
    (tail : steps = [] ∨ steps = [.reportSkip])
    (finished : call.phase ≠ .going ∨ call.backend.quitRequested = true) :
    ¬ RemovedGoing moments address := by
  obtain ⟨quiet, middle, moment, rest, rfl, isQuiet, outcome⟩ := run.request_split
  rw [removedGoing_split isQuiet]
  rcases outcome with ⟨event, goesOn, backend, phase, run⟩ | ⟨event, after, run⟩
  · have ends := run.ends_quiet tail
    rintro (⟨_, going⟩ | removed)
    · have middleGoing : middle.phase = .going := by
        rw [phase, if_neg nofun] at going
        unfold RunPhase.seen at going
        split at going
        · cases going
        · exact going
      rcases finished with stopped | quit
      · exact stopped (isQuiet.going middleGoing)
      · rw [isQuiet.quit quit] at goesOn
        cases goesOn
    · exact ends.not_removedGoing address removed
  · have ends := run.ends_quiet tail
    rintro (⟨took, _⟩ | removed)
    · rw [event] at took
      cases took
    · exact ends.not_removedGoing address removed

end Calls

/-- What happened before the last commands changes nothing of what they do. -/
theorem Tail.of_quiet {δ : Type} {call middle final : Call δ} {quiet rest : List (Moment δ)}
    {moment : Moment δ} {address : Word} (isQuiet : Quiet call quiet middle)
    (event : ∀ command, moment.event = .took command → command.editsBreakpoints = false ∧
      command ≠ .run)
    (table : moment.after.backend.table = middle.backend.table)
    (going : moment.after.phase = .going → middle.phase = .going)
    (tail : Tail address moment.after rest final) :
    Tail address call (quiet ++ moment :: rest) final := by
  have flags : ∀ place, moment.after.backend.flagAt place = call.backend.flagAt place :=
    fun place => (DebugBackend.flagAt_of_table table place).trans (isQuiet.flagAt place)
  have took : ∀ command, command.editsBreakpoints = true ∨ command = .run →
      (Took (quiet ++ moment :: rest) command ↔ Took rest command) := by
    intro command own
    refine (took_split isQuiet command).trans (or_iff_right fun here => ?_)
    obtain ⟨quietly, other⟩ := event command here
    rcases own with edits | isRun
    · rw [quietly] at edits
      cases edits
    · exact other isRun
  refine ⟨?_, fun place apart => ?_, fun inForce => ?_, ?_, ?_⟩
  · have same : (CallEvent.took (.removeBreakpoint address) ∈
        (quiet ++ moment :: rest).map (·.event)) =
        (CallEvent.took (.removeBreakpoint address) ∈ rest.map (·.event)) :=
      propext (took _ (.inl rfl))
    rw [tail.here, flags]
    simp only [same]
  · exact (tail.elsewhere place apart).trans (flags place)
  · have now : moment.after.InForce address := by
      intro isGoing
      rw [flags]
      exact inForce (isQuiet.going (going isGoing))
    refine (inForce_split isQuiet inForce).trans ((and_iff_right now).trans ?_)
    rw [tail.inForce now, removedGoing_split isQuiet]
    refine not_congr (or_iff_right ?_).symm
    rintro ⟨here, _⟩
    exact absurd (event _ here).1 nofun
  · rw [took _ (.inl rfl)]
    exact tail.adds
  · rw [took _ (.inr rfl)]
    exact tail.runs

namespace Calls

variable {δ : Type} [Chips δ] {steps : List ClientStep} {call final : Call δ}
  {moments : List (Moment δ)} {address : Word}

/-- The run has stopped, or it will see no command any more. -/
def Over (call : Call δ) : Prop := call.phase ≠ .going ∨ call.backend.quitRequested = true

omit [Chips δ] in
theorem Over.of_quiet {after : Call δ} (finished : Over call) (quiet : Quiet call moments after) :
    Over after := by
  rcases finished with stopped | quit
  · exact .inl fun going => stopped (quiet.going going)
  · exact .inr (quiet.quit quit)

/-- The removal alone, and after a trace. -/
theorem afterPause_tail (ok : call.backend.TableOk) (finished : Over call) (paused : Bool)
    (run : Calls (afterPause address paused) call moments final) :
    Tail address call moments final ∧ ¬ RemovedGoing moments address := by
  cases paused with
  | false => exact ⟨remove_tail ok run (.inl rfl), run.not_removedGoing (.inl rfl) finished⟩
  | true =>
    obtain ⟨quiet, middle, moment, rest, rfl, isQuiet, outcome⟩ := run.request_split
    have middleOk := ok.of_table isQuiet.table
    have notRemoval : moment.event ≠ .took (.removeBreakpoint address) := by
      rcases outcome with ⟨event, _⟩ | ⟨event, _⟩ <;> · rw [event]; exact nofun
    rw [removedGoing_split isQuiet, or_iff_right fun here => notRemoval here.1]
    rcases outcome with ⟨event, goesOn, backend, phase, run⟩ | ⟨event, after, run⟩
    · have table : moment.after.backend.table = middle.backend.table := by
        rw [backend]
        exact DebugBackend.processCommand_table _ _ rfl
      have going : moment.after.phase = .going → middle.phase = .going := by
        rw [phase, if_neg nofun]
        unfold RunPhase.seen
        split
        · exact nofun
        · exact id
      have stopped : middle.phase ≠ .going := by
        rcases finished.of_quiet isQuiet with stopped | quit
        · exact stopped
        · rw [quit] at goesOn
          cases goesOn
      refine ⟨Tail.of_quiet isQuiet ?_ table going
        (remove_tail (middleOk.of_table table) run (.inl rfl)),
        run.not_removedGoing (.inl rfl) (.inl fun isGoing => stopped (going isGoing))⟩
      intro command here
      rw [event] at here
      cases here
      exact ⟨rfl, nofun⟩
    · have ends := run.ends_quiet (.inl rfl)
      rw [← after] at ends
      refine ⟨Tail.of_quiet isQuiet ?_ (by rw [after]) (by rw [after]; exact id)
        (ends.tail address), ends.not_removedGoing address⟩
      intro command here
      rw [event] at here
      cases here

/-- What `traceFunction` does once its run has stopped. -/
theorem wait_tail (ok : call.backend.TableOk)
    (run : Calls [.waitForPause, .tracePaused address] call moments final) :
    Tail address call moments final ∧ ¬ RemovedGoing moments address := by
  obtain ⟨quiet, middle, acts, rfl, isQuiet, goesOn, own⟩ := run.split
  cases goesOn with
  | loop action => exact absurd rfl (own _ rfl action)
  | waited finished rest =>
    obtain ⟨quiet', paused, acts, rfl, isQuiet', goesOn, own⟩ := rest.split
    cases goesOn with
    | loop action => exact absurd rfl (own _ rfl action)
    | decided _ rest =>
      rw [List.append_nil] at rest
      have middleOk := ok.of_table isQuiet.table
      obtain ⟨tail, never⟩ := afterPause_tail (middleOk.of_table isQuiet'.table)
        (Over.of_quiet finished isQuiet') _ rest
      have decided := @Tail.of_quiet δ middle paused final quiet' _
        { event := .client, after := paused } address isQuiet' nofun rfl id tail
      refine ⟨@Tail.of_quiet δ call middle final quiet _
        { event := .client, after := middle } address isQuiet nofun rfl id decided, ?_⟩
      rw [removedGoing_split isQuiet, removedGoing_split isQuiet']
      rintro (⟨here, _⟩ | ⟨here, _⟩ | later)
      · cases here
      · cases here
      · exact never later

end Calls

/-- What the commands of a call do from its run on, which no step has begun yet; `calm` keeps the
removal out of the run. -/
structure RunTail {δ : Type} (address : Word) (calm : Prop) (call : Call δ)
    (moments : List (Moment δ)) (final : Call δ) : Prop where
  /-- A removal frees the address. -/
  here : final.backend.flagAt address =
    if CallEvent.took (.removeBreakpoint address) ∈ moments.map (·.event) then none
    else call.backend.flagAt address
  /-- Every other address is left alone. -/
  elsewhere : ∀ place, place ≠ address →
    final.backend.flagAt place = call.backend.flagAt place
  /-- A run needs an enabled breakpoint at the address, until it stops. -/
  inForce : (∀ moment ∈ moments, moment.after.InForce address) ↔
    (Took moments .run → call.backend.flagAt address = some true) ∧ ¬ RemovedGoing moments address
  /-- Nothing is added. -/
  adds : ¬ Took moments (.addBreakpoint address)
  /-- The removal is no part of the run. -/
  calm : calm → ¬ RemovedGoing moments address

namespace Calls

variable {δ : Type} [Chips δ] {steps : List ClientStep} {call final : Call δ}
  {moments : List (Moment δ)} {address : Word}

/-- The call asks for its run. -/
theorem run_tail {calm : Prop} (ok : call.backend.TableOk) (before : call.phase = .before)
    {request : Commands.Request} (isRun : request.command = .run)
    (plain : request.carriesTrace = false)
    (next : ∀ {call : Call δ} {moments : List (Moment δ)}, call.backend.TableOk →
      Calls steps call moments final →
        Tail address call moments final ∧ (calm → ¬ RemovedGoing moments address))
    (run : Calls (.request request :: steps) call moments final) :
    RunTail address calm call moments final := by
  obtain ⟨quiet, middle, moment, rest, rfl, isQuiet, outcome⟩ := run.request_split
  have middleOk := ok.of_table isQuiet.table
  rw [isRun, plain] at outcome
  have waiting : call.InForce address := fun going => by rw [before] at going; cases going
  rcases outcome with ⟨event, goesOn, backend, phase, run⟩ | ⟨event, after, run⟩
  · have table : moment.after.backend.table = middle.backend.table := by
      rw [backend]
      exact DebugBackend.processCommand_table _ _ rfl
    have flags : ∀ place, moment.after.backend.flagAt place = call.backend.flagAt place :=
      fun place => (DebugBackend.flagAt_of_table table place).trans (isQuiet.flagAt place)
    obtain ⟨tail, calmly⟩ := next (middleOk.of_table table) run
    rw [if_pos rfl] at phase
    have others : ∀ command, command ≠ .run →
        (Took (quiet ++ moment :: rest) command ↔ Took rest command) := by
      intro command other
      refine (took_split isQuiet command).trans (or_iff_right fun here => ?_)
      rw [event] at here
      cases here
      exact other rfl
    have removal : RemovedGoing (quiet ++ moment :: rest) address ↔ RemovedGoing rest address := by
      refine (removedGoing_split isQuiet address).trans (or_iff_right fun here => ?_)
      rw [event] at here
      cases here.1
    have began : Took (quiet ++ moment :: rest) .run := (took_split isQuiet _).mpr (.inl event)
    have sameTook : (CallEvent.took (.removeBreakpoint address) ∈
        (quiet ++ moment :: rest).map (·.event)) =
        (CallEvent.took (.removeBreakpoint address) ∈ rest.map (·.event)) :=
      propext (others (.removeBreakpoint address) nofun)
    refine ⟨?_, fun place apart => (tail.elsewhere place apart).trans (flags place), ?_, ?_, ?_⟩
    · rw [tail.here, flags]
      simp only [sameTook]
    · refine (inForce_split isQuiet waiting).trans ?_
      rw [removal]
      constructor
      · rintro ⟨now, later⟩
        exact ⟨fun _ => (flags address).symm.trans (now phase), (tail.inForce now).mp later⟩
      · rintro ⟨enabled, kept⟩
        have now : moment.after.InForce address := fun _ => (flags address).trans (enabled began)
        exact ⟨now, (tail.inForce now).mpr kept⟩
    · rw [others (.addBreakpoint address) nofun]
      exact tail.adds
    · rw [removal]
      exact calmly
  · rw [if_neg nofun] at run
    obtain ⟨tail, calmly⟩ := next middleOk run
    rw [← after] at tail
    have whole := Tail.of_quiet isQuiet
      (fun command here => by rw [event] at here; cases here) (by rw [after])
      (by rw [after]; exact id) tail
    refine ⟨whole.here, whole.elsewhere, ?_, whole.adds, fun isCalm => ?_⟩
    · rw [whole.inForce waiting]
      exact (and_iff_right fun began => absurd began whole.runs).symm
    · rw [removedGoing_split isQuiet]
      rintro (⟨here, _⟩ | later)
      · rw [event] at here
        cases here
      · exact calmly isCalm later

end Calls

/-- What a call does that adds a breakpoint, runs and removes it. -/
structure AddTail {δ : Type} (address : Word) (calm : Prop) (call : Call δ)
    (moments : List (Moment δ)) (final : Call δ) : Prop where
  /-- A removal frees the address. -/
  here : final.backend.flagAt address =
    if CallEvent.took (.removeBreakpoint address) ∈ moments.map (·.event) then none
    else if CallEvent.took (.addBreakpoint address) ∈ moments.map (·.event) then
      some ((call.backend.flagAt address).getD true)
    else call.backend.flagAt address
  /-- Every other address is left alone. -/
  elsewhere : ∀ place, place ≠ address →
    final.backend.flagAt place = call.backend.flagAt place
  /-- A run needs an enabled breakpoint at the address, until it stops. -/
  inForce : (∀ moment ∈ moments, moment.after.InForce address) ↔
    (Took moments .run →
      (if CallEvent.took (.addBreakpoint address) ∈ moments.map (·.event) then
        some ((call.backend.flagAt address).getD true)
      else call.backend.flagAt address) = some true) ∧ ¬ RemovedGoing moments address
  /-- The removal is no part of the run. -/
  calm : calm → ¬ RemovedGoing moments address

namespace Calls

variable {δ : Type} [Chips δ] {steps : List ClientStep} {call final : Call δ}
  {moments : List (Moment δ)} {address : Word}

/-- The call adds its breakpoint. -/
theorem add_tail {calm : Prop} (ok : call.backend.TableOk) (before : call.phase = .before)
    (next : ∀ {call : Call δ} {moments : List (Moment δ)}, call.backend.TableOk →
      call.phase = .before → Calls steps call moments final →
        RunTail address calm call moments final)
    (run : Calls (.add address :: steps) call moments final) :
    AddTail address calm call moments final := by
  obtain ⟨quiet, middle, moment, rest, rfl, isQuiet, outcome⟩ := run.request_split
  have middleOk := ok.of_table isQuiet.table
  have middleBefore : middle.phase = .before := by
    rcases isQuiet.phase with same | ⟨going, _⟩
    · exact same.trans before
    · rw [before] at going
      cases going
  have waiting : call.InForce address := fun going => by rw [before] at going; cases going
  have others : ∀ command, command ≠ .addBreakpoint address →
      (Took (quiet ++ moment :: rest) command ↔ Took rest command) := by
    intro command other
    refine (took_split isQuiet command).trans (or_iff_right fun here => ?_)
    rcases outcome with ⟨event, _⟩ | ⟨event, _⟩
    · rw [event] at here
      cases here
      exact other rfl
    · rw [event] at here
      cases here
  have removal : RemovedGoing (quiet ++ moment :: rest) address ↔ RemovedGoing rest address := by
    refine (removedGoing_split isQuiet address).trans (or_iff_right fun here => ?_)
    rcases outcome with ⟨event, _⟩ | ⟨event, _⟩
    · rw [event] at here
      cases here.1
    · rw [event] at here
      cases here.1
  have sameTook : (CallEvent.took (.removeBreakpoint address) ∈
      (quiet ++ moment :: rest).map (·.event)) =
      (CallEvent.took (.removeBreakpoint address) ∈ rest.map (·.event)) :=
    propext (others (.removeBreakpoint address) nofun)
  -- the addition decides what stands at the address when the run is asked for
  obtain ⟨tail, isBefore, added⟩ : RunTail address calm moment.after rest final ∧
      moment.after.phase = .before ∧ ∀ place, moment.after.backend.flagAt place =
        if place = address ∧
            CallEvent.took (.addBreakpoint address) ∈ (quiet ++ moment :: rest).map (·.event) then
          some ((call.backend.flagAt address).getD true)
        else call.backend.flagAt place := by
    rcases outcome with ⟨event, goesOn, backend, phase, run⟩ | ⟨event, after, run⟩
    · have step : (middle.backend.processCommand
          { command := .addBreakpoint address, withdrawn := false }).backend.table =
            (middle.backend.addBreakpoint address).1.table := by
        unfold DebugBackend.processCommand
        rw [goesOn]
        rfl
      have isBefore : moment.after.phase = .before := by
        rw [phase, if_neg nofun, middleBefore]
        rfl
      have afterOk : moment.after.backend.TableOk := by
        rw [backend]
        exact (middleOk.addBreakpoint address).of_table step
      refine ⟨next afterOk isBefore run, isBefore, fun place => ?_⟩
      rw [backend]
      refine (DebugBackend.flagAt_of_table step place).trans ?_
      rw [DebugBackend.flagAt_addBreakpoint, isQuiet.flagAt, isQuiet.flagAt]
      have took : Took (quiet ++ moment :: rest) (.addBreakpoint address) :=
        (took_split isQuiet _).mpr (.inl event)
      simp only [and_iff_left (show CallEvent.took (.addBreakpoint address) ∈
        (quiet ++ moment :: rest).map (·.event) from took)]
    · rw [if_neg nofun] at run
      rw [after]
      have tail := next middleOk middleBefore run
      refine ⟨tail, middleBefore, fun place => ?_⟩
      rw [isQuiet.flagAt, if_neg]
      rintro ⟨_, took⟩
      rcases (took_split isQuiet _).mp took with here | later
      · rw [event] at here
        cases here
      · exact tail.adds later
  have addedHere := added address
  rw [if_congr (and_iff_right rfl) rfl rfl] at addedHere
  refine ⟨?_, fun place apart => ?_, ?_, ?_⟩
  · rw [tail.here, addedHere]
    simp only [sameTook]
  · rw [tail.elsewhere place apart, added, if_neg fun here => apart here.1]
  · have now : moment.after.InForce address := fun going => by rw [isBefore] at going; cases going
    refine (inForce_split isQuiet waiting).trans ((and_iff_right now).trans ?_)
    rw [tail.inForce, addedHere, removal, others .run nofun]
  · rw [removal]
    exact tail.calm

end Calls

/-- A run that ends on the user's own breakpoint leaves everything alone. -/
theorem Calls.run_alone {δ : Type} [Chips δ] {call final : Call δ} {moments : List (Moment δ)}
    {address : Word} (enabled : call.backend.flagAt address = some true)
    (run : Calls [.request (.submitAndWait .run), .reportSkip] call moments final) :
    LeavesAlone address call moments final := by
  obtain ⟨quiet, middle, moment, rest, rfl, isQuiet, outcome⟩ := run.request_split
  obtain ⟨table, ends⟩ : moment.after.backend.table = middle.backend.table ∧
      Quiet moment.after rest final := by
    rcases outcome with ⟨_, _, backend, _, run⟩ | ⟨_, after, run⟩
    · refine ⟨?_, run.ends_quiet (.inr rfl)⟩
      rw [backend]
      exact DebugBackend.processCommand_table _ _ rfl
    · rw [after]
      exact ⟨rfl, run.ends_quiet (.inr rfl)⟩
  have flags : ∀ place, moment.after.backend.flagAt place = call.backend.flagAt place :=
    fun place => (DebugBackend.flagAt_of_table table place).trans (isQuiet.flagAt place)
  have waiting : call.InForce address := fun _ => enabled
  have now : moment.after.InForce address := fun _ => (flags address).trans enabled
  exact ⟨fun place => (ends.flagAt place).trans (flags place),
    (inForce_split isQuiet waiting).mpr ⟨now, (ends.inForce now).1⟩⟩

/-- What `requestSkipInstruction` needs in order to leave the breakpoints alone, by the flag at
the next instruction. -/
def SkipKept {δ : Type} (flag : Option Bool) (address : Word) (moments : List (Moment δ)) : Prop :=
  match flag with
  | some true => True
  | some false => ¬ Took moments .run ∧ ¬ Took moments (.removeBreakpoint address)
  | none =>
    (Took moments (.addBreakpoint address) → Took moments (.removeBreakpoint address)) ∧
      (Took moments .run → Took moments (.addBreakpoint address)) ∧
      ¬ RemovedGoing moments address

/-- What `traceFunction` needs in order to leave the breakpoints alone, by the flag at the
function. -/
def TraceKept {δ : Type} (flag : Option Bool) (address : Word) (moments : List (Moment δ)) :
    Prop :=
  match flag with
  | some true => ¬ Took moments (.removeBreakpoint address)
  | some false => ¬ Took moments .run ∧ ¬ Took moments (.removeBreakpoint address)
  | none =>
    (Took moments (.addBreakpoint address) → Took moments (.removeBreakpoint address)) ∧
      (Took moments .run → Took moments (.addBreakpoint address))

/-- A call that adds, runs and removes leaves the table alone under these conditions. -/
theorem AddTail.leavesAlone_iff {δ : Type} {address : Word} {calm : Prop} {call final : Call δ}
    {moments : List (Moment δ)} (tail : AddTail address calm call moments final) :
    LeavesAlone address call moments final ↔
      ((call.backend.flagAt address = some true ∧
          ¬ Took moments (.removeBreakpoint address) ∨
        call.backend.flagAt address = some false ∧ ¬ Took moments .run ∧
          ¬ Took moments (.removeBreakpoint address) ∨
        call.backend.flagAt address = none ∧
          (Took moments (.addBreakpoint address) → Took moments (.removeBreakpoint address)) ∧
          (Took moments .run → Took moments (.addBreakpoint address))) ∧
        ¬ RemovedGoing moments address) := by
  have table : (∀ place, final.backend.flagAt place = call.backend.flagAt place) ↔
      final.backend.flagAt address = call.backend.flagAt address := by
    refine ⟨fun same => same address, fun same place => ?_⟩
    by_cases here : place = address
    · rw [here]
      exact same
    · exact tail.elsewhere place here
  have both : LeavesAlone address call moments final ↔
      final.backend.flagAt address = call.backend.flagAt address ∧
        ∀ moment ∈ moments, moment.after.InForce address := by
    rw [← table]
    exact ⟨fun alone => ⟨alone.table, alone.inForce⟩, fun parts => ⟨parts.1, parts.2⟩⟩
  rw [both, tail.inForce, tail.here]
  unfold Took
  cases call.backend.flagAt address with
  | none => split_ifs <;> simp_all [-List.mem_map]
  | some enabled => cases enabled <;> split_ifs <;> simp_all [-List.mem_map]

namespace DebugBackend

variable {δ : Type} [Chips δ]

/-- `requestSkipInstruction`, whatever it has read as program counter and opcode, leaves the
user's breakpoints alone exactly when an enabled one stands at the next instruction, or none does
and the temporary one is removed after its run has stopped; and `traceFunction` exactly when none
stands at the function and its own is removed. A call whose commands are not executed does no
harm either. -/
theorem temporary_breakpoint_iff (backend : DebugBackend δ) (ok : backend.TableOk)
    (moments : List (Moment δ)) (final : Call δ) :
    (∀ (pc : Word) (opcode : Byte),
        Calls (requestSkipInstruction pc opcode backend.hasBreakpoint)
          { backend, phase := .before } moments final →
        (LeavesAlone (pc + BitVec.ofNat 16 (getLength opcode)) { backend, phase := .before }
            moments final ↔
          SkipKept (backend.flagAt (pc + BitVec.ofNat 16 (getLength opcode)))
            (pc + BitVec.ofNat 16 (getLength opcode)) moments)) ∧
      ∀ address : Word,
        Calls (traceFunction address) { backend, phase := .before } moments final →
        (LeavesAlone address { backend, phase := .before } moments final ↔
          TraceKept (backend.flagAt address) address moments) := by
  constructor
  · intro pc opcode run
    unfold requestSkipInstruction at run
    generalize pc + BitVec.ofNat 16 (getLength opcode) = address at run ⊢
    dsimp only at run
    rw [hasBreakpoint_eq] at run
    by_cases enabled : backend.flagAt address = some true
    · rw [enabled] at run ⊢
      exact iff_of_true (Calls.run_alone enabled run) trivial
    · have absent : (backend.flagAt address).getD false = false := by
        cases flag : backend.flagAt address with
        | none => rfl
        | some on =>
          cases on with
          | false => rfl
          | true => exact absurd flag enabled
      rw [absent] at run
      have tail := Calls.add_tail ok rfl (fun ok before run =>
        Calls.run_tail ok before rfl rfl (fun ok run =>
          ⟨Calls.remove_tail ok run (.inr rfl), False.elim⟩) run) run
      rw [tail.leavesAlone_iff]
      dsimp only
      unfold SkipKept
      cases flag : backend.flagAt address with
      | none => simp only [reduceCtorEq, false_and, true_and, false_or, and_assoc]
      | some on =>
        cases on with
        | true => exact absurd flag enabled
        | false =>
          have kept : ¬ Took moments (.removeBreakpoint address) →
              ¬ RemovedGoing moments address := by
            rintro notTook ⟨moment, listed, took, _⟩
            exact notTook (List.mem_map.mpr ⟨moment, listed, took⟩)
          simp only [Option.some.injEq, Bool.false_eq_true, false_and, true_and, reduceCtorEq,
            false_or, or_false, and_assoc]
          exact ⟨fun held => ⟨held.1, held.2.1⟩, fun held => ⟨held.1, held.2, kept held.2⟩⟩
  · intro address run
    have tail := @Calls.add_tail _ _ _ _ _ _ _ True ok rfl (fun ok before run =>
      Calls.run_tail ok before rfl rfl (fun ok run =>
        ⟨(Calls.wait_tail ok run).1, fun _ => (Calls.wait_tail ok run).2⟩) run) run
    rw [tail.leavesAlone_iff, and_iff_left (tail.calm trivial)]
    dsimp only
    unfold TraceKept
    cases backend.flagAt address with
    | none => simp
    | some on => cases on <;> simp

/-- A new backend with one breakpoint of the user at the second instruction. -/
def withBreakpoint (enabled : Bool) : DebugBackend Unit :=
  { init () [] fun _ => [] with
    breakpoints := [(1, { address := 1, enabled })]
    nextId := 2 }

theorem withBreakpoint_tableOk (enabled : Bool) : (withBreakpoint enabled).TableOk := by
  refine ⟨fun entry listed => ?_, List.nodup_singleton _, List.nodup_singleton _⟩
  rw [List.mem_singleton.mp listed]
  exact Nat.lt_succ_self 1

/-- Skipping to an enabled breakpoint of the user. -/
theorem temporary_breakpoint_iff_enabled :
    ∃ moments final,
      LeavesAlone 1 { backend := withBreakpoint true, phase := .before } moments final := by
  have steps : requestSkipInstruction 0 0 (withBreakpoint true).hasBreakpoint =
      [.request (.submitAndWait .run), .reportSkip] := by decide
  have run : ∃ moments final, Calls (requestSkipInstruction 0 0 (withBreakpoint true).hasBreakpoint)
      { backend := withBreakpoint true, phase := .before } moments final := by
    rw [steps]
    exact ⟨_, _, .took _ _ _ rfl rfl rfl (.reported (.done _))⟩
  obtain ⟨moments, final, call⟩ := run
  exact ⟨moments, final, ((temporary_breakpoint_iff (withBreakpoint true)
    (withBreakpoint_tableOk true) moments final).1 0 0 call).mpr trivial⟩

/-- Skipping to a disabled breakpoint of the user deletes it, and a temporary one may be removed
while the run that needs it goes on. -/
theorem skip_disturbs_breakpoints :
    (∃ moments final,
      Calls (requestSkipInstruction 0 0 (withBreakpoint false).hasBreakpoint)
        { backend := withBreakpoint false, phase := .before } moments final ∧
      ¬ LeavesAlone 1 { backend := withBreakpoint false, phase := .before } moments final) ∧
    ∃ moments final,
      Calls (requestSkipInstruction 0 0 (init () [] fun _ => []).hasBreakpoint)
        { backend := init () [] fun _ => [], phase := .before } moments final ∧
      ¬ LeavesAlone 1 { backend := init () [] fun _ => [], phase := .before } moments final := by
  have steps : ∀ hasBreakpoint : Word → Bool, hasBreakpoint 1 = false →
      requestSkipInstruction 0 0 hasBreakpoint =
        [.add 1, .request (.submitAndWait .run), .remove 1, .reportSkip] := by
    intro hasBreakpoint absent
    have next : (0 : Word) + BitVec.ofNat 16 (getLength 0) = 1 := by decide
    unfold requestSkipInstruction
    dsimp only
    rw [next, absent]
    rfl
  constructor
  · rw [steps _ (by decide)]
    refine ⟨_, _, .took _ _ _ rfl rfl rfl (.took _ _ _ rfl rfl rfl (.took _ _ _ rfl rfl rfl
      (.reported (.done _)))), fun alone => ?_⟩
    have before : (withBreakpoint false).flagAt 1 = some false := by decide
    have gone := (alone.table 1).trans before
    exact absurd gone (by decide)
  · rw [steps _ (by decide)]
    refine ⟨_, _, .took _ _ _ rfl rfl rfl (.took _ _ _ rfl rfl rfl (.took _ _ _ rfl rfl rfl
      (.reported (.done _)))), fun alone => ?_⟩
    have forced := alone.inForce _ (.tail _ (.tail _ (.head _))) (by decide)
    exact absurd forced (by decide)

end DebugBackend

end VectorDebugger

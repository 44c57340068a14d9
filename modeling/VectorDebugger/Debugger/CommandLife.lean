import VectorDebugger.Debugger.Commands

/-!
# The life of a command

Seen from one command, a run of all threads is a short life: it is made, it waits in the queue, the
emulation thread takes it, examines it, performs what there is to perform and destroys it. `View` is
what a system shows of one command, and `View.Sound` what holds of it at each point of that life, as
long as every submitter looks at its own command only. Every step of the system moves one command
along and leaves the others where they are.
-/

namespace VectorDebugger.Commands

/-- Where a command is. -/
inductive Place
  /-- Not enqueued yet, or destroyed. -/
  | away
  /-- In the queue. -/
  | queue
  /-- Dequeued, its state not tested yet. -/
  | taken
  /-- Won for execution. -/
  | examined
  /-- In the hands of the emulation thread, with these operations to go. -/
  | performing (ops : List Op)
deriving DecidableEq

/-- What the emulation thread is doing with a command. -/
def Control.place : Control → Nat → Place
  | .at _, _ => .away
  | .taken current _, id => if current = id then .taken else .away
  | .draining current, id => if current = id then .taken else .away
  | .examined current _, id => if current = id then .examined else .away
  | .performing current ops _, id => if current = some id then .performing ops else .away

/-- The command the emulation thread holds. -/
def Control.current : Control → Option Nat
  | .at _ => none
  | .taken id _ => some id
  | .examined id _ => some id
  | .draining id => some id
  | .performing current _ _ => current

/-- What a system shows of one command. -/
structure View where
  /-- The command. -/
  entry : Entry
  /-- Its state in memory while it lives. -/
  cell : Option CommandState
  /-- Where it is. -/
  place : Place
  /-- How often its `pausePromise` is in the pending list. -/
  held : Nat

namespace System

/-- The state of a command while it lives. -/
def cell (s : System) (id : Nat) : Option CommandState :=
  let cell := s.memory (s.entries id).address
  if cell.owner = some id then some cell.state else none

/-- Where a command is. -/
def place (s : System) (id : Nat) : Place :=
  if id ∈ s.queue then .queue else s.control.place id

/-- One command of a system. -/
def view (s : System) (id : Nat) : View where
  entry := s.entries id
  cell := s.cell id
  place := s.place id
  held := s.pending.count id

end System

/-! ### One command is moved, the others stay -/

namespace Control

theorem place_of_current_none {control : Control} (idle : control.current = none) (id : Nat) :
    control.place id = .away := by
  cases control with
  | performing current ops next =>
    cases current with
    | none => rfl
    | some other => cases idle
  | «at» => rfl
  | _ => cases idle

theorem place_of_ne {control : Control} {id other : Nat} (held : control.current = some id)
    (ne : other ≠ id) : control.place other = .away := by
  cases control with
  | performing current ops next =>
    change current = some id at held
    subst held
    simp [place, ne.symm]
  | «at» => cases held
  | _ =>
    cases held
    simp [place, ne.symm]

end Control

namespace System

theorem cell_eq_some {s : System} {id : Nat} {state : CommandState} :
    s.cell id = some state ↔ (s.memory (s.entries id).address).owner = some id ∧
      (s.memory (s.entries id).address).state = state := by
  unfold cell
  dsimp only
  split
  · rename_i owned
    simp [owned]
  · rename_i lost
    simp [lost]

/-- A command that shares its address with a living one is dead. -/
theorem cell_of_ne {s : System} {id other : Nat}
    (owner : (s.memory (s.entries id).address).owner = some id) (ne : other ≠ id)
    (same : (s.entries other).address = (s.entries id).address) : s.cell other = none := by
  unfold cell
  dsimp only
  rw [same, owner, if_neg]
  exact fun equal => ne (Option.some.inj equal).symm

/-- Two systems show the same of a command. -/
theorem view_congr {s after : System} {id : Nat} (entry : after.entries id = s.entries id)
    (cell : after.cell id = s.cell id) (place : after.place id = s.place id)
    (held : after.pending.count id = s.pending.count id) : after.view id = s.view id := by
  unfold view
  rw [entry, cell, place, held]

theorem modify_view_ne (s : System) {id other : Nat} (change : Entry → Entry) (ne : other ≠ id) :
    (s.modify id change).view other = s.view other := by
  have kept : (s.modify id change).entries other = s.entries other := Function.update_of_ne ne ..
  refine view_congr kept ?_ rfl rfl
  unfold cell
  rw [kept]
  rfl

theorem modify_view (s : System) (id : Nat) (change : Entry → Entry)
    (address : (change (s.entries id)).address = (s.entries id).address) :
    (s.modify id change).view id = { s.view id with entry := change (s.entries id) } := by
  have changed : (s.modify id change).entries id = change (s.entries id) :=
    Function.update_self ..
  unfold view
  rw [changed]
  congr 1
  unfold cell
  rw [changed, address]
  rfl

theorem store_view_ne (s : System) {id other : Nat} (state : CommandState)
    (owner : (s.memory (s.entries id).address).owner = some id) (ne : other ≠ id) :
    (s.store (s.entries id).address state).view other = s.view other := by
  refine view_congr rfl ?_ rfl rfl
  by_cases same : (s.entries other).address = (s.entries id).address
  · have owner' : ((s.store (s.entries id).address state).memory
        ((s.store (s.entries id).address state).entries id).address).owner = some id := by
      unfold store
      simp [owner]
    rw [cell_of_ne owner ne same, cell_of_ne owner' ne same]
  · unfold cell store
    dsimp only
    rw [Function.update_of_ne same]

theorem store_view (s : System) (id : Nat) (state : CommandState)
    (owner : (s.memory (s.entries id).address).owner = some id) :
    (s.store (s.entries id).address state).view id = { s.view id with cell := some state } := by
  unfold view
  congr 1
  unfold cell store
  simp [owner]

theorem release_view_ne (s : System) {id other : Nat}
    (owner : (s.memory (s.entries id).address).owner = some id) (ne : other ≠ id) :
    (s.release id).view other = s.view other := by
  refine view_congr rfl ?_ rfl rfl
  by_cases same : (s.entries other).address = (s.entries id).address
  · rw [cell_of_ne owner ne same]
    unfold cell release
    simp [same]
  · unfold cell release
    dsimp only
    rw [Function.update_of_ne same]

theorem release_view (s : System) (id : Nat) :
    (s.release id).view id = { s.view id with cell := none } := by
  unfold view
  congr 1
  unfold cell release
  simp

/-- What `exchange` counts. -/
def note (desired : CommandState) (entry : Entry) : Entry :=
  if desired = .executing then { entry with starts := entry.starts + 1 }
  else { entry with cancels := entry.cancels + 1 }

theorem exchange_eq (s : System) (id : Nat) (desired : CommandState)
    (owner : (s.memory (s.entries id).address).owner = some id) :
    s.exchange (s.entries id).address desired =
      (s.store (s.entries id).address desired).modify id (note desired) := by
  unfold exchange
  dsimp only
  rw [owner]
  rfl

theorem note_address (desired : CommandState) (entry : Entry) :
    (note desired entry).address = entry.address := by
  unfold note
  split <;> rfl

theorem exchange_view_ne (s : System) {id other : Nat} (desired : CommandState)
    (owner : (s.memory (s.entries id).address).owner = some id) (ne : other ≠ id) :
    (s.exchange (s.entries id).address desired).view other = s.view other := by
  rw [exchange_eq s id desired owner, modify_view_ne _ _ ne, store_view_ne s desired owner ne]

theorem exchange_view (s : System) (id : Nat) (desired : CommandState)
    (owner : (s.memory (s.entries id).address).owner = some id) :
    (s.exchange (s.entries id).address desired).view id =
      { s.view id with entry := note desired (s.entries id), cell := some desired } := by
  rw [exchange_eq s id desired owner, modify_view _ _ _ (note_address _ _), store_view s id _ owner]
  rfl

/-- `fulfillPausePromises_` empties the pending list into the promises. -/
theorem fulfillPausePromises_view (s : System) (id : Nat) :
    s.fulfillPausePromises.view id =
      { s.view id with
        entry := { s.entries id with pauses := (s.entries id).pauses + s.pending.count id }
        held := 0 } := rfl

end System

/-! ### What is still to be done -/

/-- The answers still to be given. -/
def answers (ops : List Op) : List Answer :=
  ops.filterMap fun
    | .answer answer => some answer
    | _ => none

/-- Nothing is executed after the answer. -/
def answersLast : List Op → Bool
  | [] => true
  | .answer _ :: rest => rest.count .execute = 0
  | _ :: rest => answersLast rest

theorem count_execute_cons {op : Op} (other : op ≠ .execute) (ops : List Op) :
    (op :: ops).count .execute = ops.count .execute := List.count_cons_of_ne other

theorem answersLast_of_idle {ops : List Op} (idle : ops.count .execute = 0) :
    answersLast ops = true := by
  induction ops with
  | nil => rfl
  | cons op ops inductionHypothesis =>
    have rest : ops.count .execute = 0 := by
      rw [List.count_cons] at idle
      omega
    cases op with
    | answer => simpa [answersLast] using rest
    | _ => exact inductionHypothesis rest

theorem program_spec (request : Request) :
    answers (program request) = [.executed] ∧ (program request).count .execute = 1 ∧
      answersLast (program request) = true := by
  cases request with
  | submitAndWait command => cases command <;> exact ⟨rfl, rfl, rfl⟩
  | _ => exact ⟨rfl, rfl, rfl⟩

theorem drainProgram_spec (request : Request) :
    answers (drainProgram request) = [.drained] ∧ (drainProgram request).count .execute = 0 ∧
      answersLast (drainProgram request) = true := by
  cases request <;> exact ⟨rfl, rfl, rfl⟩

/-! ### The invariant of a life -/

/-- The submitter has enqueued its command and not returned. -/
def Submitter.waits : Submitter → Bool
  | .waiting | .timedOut | .cancelling | .blocked => true
  | _ => false

/-- Nothing has been done with a command. -/
structure Untouched (entry : Entry) : Prop where
  /-- No answer. -/
  results : entry.results = []
  /-- No execution. -/
  executions : entry.executions = 0
  /-- Not started. -/
  starts : entry.starts = 0

/-- The command ends, or has ended, with this answer. -/
structure Answers (entry : Entry) (ops : List Op) (answer : Answer) : Prop where
  /-- It is given once. -/
  once : entry.results ++ answers ops = [answer]
  /-- It is not that of a withdrawn command. -/
  real : answer ≠ .cancelled
  /-- It tells whether the command is executed. -/
  work : entry.executions + ops.count .execute = if answer = .executed then 1 else 0
  /-- The submitter waits for it, or has it. -/
  submitter : entry.submitter.waits = true ∨
    entry.submitter = .returned (some answer) ∧ entry.results = [answer]

/-- The submitter has withdrawn the command. -/
structure Withdrawn (entry : Entry) (ops : List Op) : Prop where
  /-- It has returned `Timeout`. -/
  submitter : entry.submitter = .returned none
  /-- The command is not executed. -/
  work : entry.executions + ops.count .execute = 0

/-- The command is settled once these operations are performed. -/
structure Settles (entry : Entry) (ops : List Op) : Prop where
  /-- One `compare_exchange` on it has succeeded. -/
  decided : entry.starts + entry.cancels = 1
  /-- Nothing is executed after the answer. -/
  last : answersLast ops = true
  /-- Nor if it was given already. -/
  done : entry.results ≠ [] → ops.count .execute = 0
  /-- It is answered, or it was withdrawn. -/
  outcome : (∃ answer, Answers entry ops answer) ∨ Withdrawn entry ops

/-- The promises of pauses and traces do not count. -/
theorem Settles.promises {entry : Entry} {ops : List Op} (settles : Settles entry ops)
    (pauses traces : Nat) : Settles { entry with pauses, traces } ops := by
  obtain ⟨decided, last, done, outcome⟩ := settles
  refine ⟨decided, last, done, ?_⟩
  rcases outcome with ⟨answer, once, real, work, submitter⟩ | ⟨submitter, work⟩
  · exact .inl ⟨answer, once, real, work, submitter⟩
  · exact .inr ⟨submitter, work⟩

/-- A command that settles was enqueued. -/
theorem Settles.enqueued {entry : Entry} {ops : List Op} (settles : Settles entry ops) :
    entry.submitter ≠ .absent ∧ entry.submitter ≠ .created := by
  rcases settles.outcome with ⟨answer, _, _, _, waits | ⟨returned, _⟩⟩ | ⟨returned, _⟩
  · constructor <;> (intro equal; rw [equal] at waits; cases waits)
  · rw [returned]
    exact ⟨nofun, nofun⟩
  · rw [returned]
    exact ⟨nofun, nofun⟩

/-- A submitter that goes on waiting changes nothing. -/
theorem Settles.wait {entry : Entry} {ops : List Op} (settles : Settles entry ops)
    (waits : entry.submitter.waits = true) {submitter : Submitter}
    (still : submitter.waits = true) : Settles { entry with submitter } ops := by
  obtain ⟨decided, last, done, outcome⟩ := settles
  refine ⟨decided, last, done, ?_⟩
  rcases outcome with ⟨answer, once, real, work, _⟩ | ⟨returned, _⟩
  · exact .inl ⟨answer, once, real, work, .inl still⟩
  · rw [returned] at waits
    cases waits

/-- An answer that is there can be collected. -/
theorem Settles.collect {entry : Entry} {ops : List Op} (settles : Settles entry ops)
    (waits : entry.submitter.waits = true) {answer : Answer} {rest : List Answer}
    (ready : entry.results = answer :: rest) :
    Settles { entry with submitter := .returned (some answer) } ops := by
  obtain ⟨decided, last, done, outcome⟩ := settles
  refine ⟨decided, last, done, ?_⟩
  rcases outcome with ⟨given, once, real, work, _⟩ | ⟨returned, _⟩
  · have whole : entry.results = [answer] ∧ given = answer := by
      rw [ready] at once
      obtain ⟨first, nothing⟩ := List.cons.inj once
      rw [ready, (List.append_eq_nil_iff.mp nothing).1]
      exact ⟨rfl, first.symm⟩
    obtain ⟨results, rfl⟩ := whole
    exact .inl ⟨given, once, real, work, .inr ⟨rfl, results⟩⟩
  · rw [returned] at waits
    cases waits

/-- What an operation does to the command, its promises of pauses and traces apart. -/
def Op.on (op : Op) (entry : Entry) : Entry :=
  match op with
  | .execute => { entry with executions := entry.executions + 1 }
  | .answer given => { entry with results := entry.results ++ [given] }
  | _ => entry

/-- An operation settles its part. -/
theorem Settles.perform {entry : Entry} {op : Op} {ops : List Op}
    (settles : Settles entry (op :: ops)) : Settles (op.on entry) ops := by
  obtain ⟨decided, last, done, outcome⟩ := settles
  have others : op.on entry = entry → answersLast ops = answersLast (op :: ops) →
      answers (op :: ops) = answers ops → (op :: ops).count .execute = ops.count .execute →
      Settles (op.on entry) ops := by
    intro same last' given work'
    rw [same]
    refine ⟨decided, last'.trans last, fun answered => work' ▸ done answered, ?_⟩
    rcases outcome with ⟨answer, once, real, work, submitter⟩ | ⟨returned, work⟩
    · exact .inl ⟨answer, given ▸ once, real, work' ▸ work, submitter⟩
    · exact .inr ⟨returned, work' ▸ work⟩
  cases op with
  | execute =>
    have more : (Op.execute :: ops).count .execute = ops.count .execute + 1 := List.count_cons_self
    have unanswered : entry.results = [] := by
      by_contra answered
      have nothing := done answered
      omega
    refine ⟨decided, last, fun answered => absurd unanswered answered, ?_⟩
    rcases outcome with ⟨answer, once, real, work, submitter⟩ | ⟨returned, work⟩
    · refine .inl ⟨answer, once, real, ?_, submitter⟩
      rw [← work, more]
      change entry.executions + 1 + _ = _
      omega
    · omega
  | answer given =>
    have idle : ops.count .execute = 0 := by simpa [answersLast] using last
    have quiet := @count_execute_cons (.answer given) nofun ops
    refine ⟨decided, answersLast_of_idle idle, fun _ => idle, ?_⟩
    rcases outcome with ⟨answer, once, real, work, submitter⟩ | ⟨returned, work⟩
    · left
      refine ⟨answer, ?_, real, quiet ▸ work, ?_⟩
      · rw [← once]
        change entry.results ++ [given] ++ answers ops = entry.results ++ given :: answers ops
        rw [List.append_assoc]
        rfl
      · rcases submitter with waits | ⟨_, results⟩
        · exact .inl waits
        · rw [results] at once
          cases once
    · exact .inr ⟨returned, quiet ▸ work⟩
  | _ => exact others rfl rfl rfl (count_execute_cons (by nofun) ops)

/-- What holds of a command at each point of its life. -/
inductive View.Sound (view : View) : Prop
  | absent (place : view.place = .away) (cell : view.cell = none)
      (submitter : view.entry.submitter = .absent) (untouched : Untouched view.entry)
      (cancels : view.entry.cancels = 0)
  | created (place : view.place = .away) (cell : view.cell = some .queued)
      (submitter : view.entry.submitter = .created) (untouched : Untouched view.entry)
      (cancels : view.entry.cancels = 0)
  | queued (place : view.place = .queue ∨ view.place = .taken) (cell : view.cell = some .queued)
      (submitter : view.entry.submitter.waits = true) (untouched : Untouched view.entry)
      (cancels : view.entry.cancels = 0)
  | withdrawn (place : view.place = .queue ∨ view.place = .taken)
      (cell : view.cell = some .cancelled) (submitter : view.entry.submitter = .returned none)
      (untouched : Untouched view.entry) (cancels : view.entry.cancels = 1)
  | examined (place : view.place = .examined) (cell : view.cell = some .executing)
      (submitter : view.entry.submitter.waits = true) (results : view.entry.results = [])
      (executions : view.entry.executions = 0) (starts : view.entry.starts = 1)
      (cancels : view.entry.cancels = 0)
  | settling (ops : List Op) (place : view.place = .performing ops) (state : CommandState)
      (cell : view.cell = some state) (decided : state ≠ .queued) (settles : Settles view.entry ops)
  | gone (place : view.place = .away) (cell : view.cell = none) (settles : Settles view.entry [])

/-- Two views of a command that differ in its own promises only. -/
structure View.SameButPromises (view after : View) : Prop where
  /-- Same state. -/
  cell : after.cell = view.cell
  /-- Same place. -/
  place : after.place = view.place
  /-- Same command. -/
  entry : after.entry =
    { view.entry with pauses := after.entry.pauses, traces := after.entry.traces }

namespace View

theorem SameButPromises.of_eq {view after : View} (same : after = view) :
    view.SameButPromises after := by
  subst same
  exact ⟨rfl, rfl, rfl⟩

theorem Sound.of_same {view after : View} (sound : view.Sound) (same : view.SameButPromises after) :
    after.Sound := by
  have whole : after =
      { entry :=
          { view.entry with pauses := after.entry.pauses, traces := after.entry.traces }
        cell := view.cell, place := view.place, held := after.held } := by
    obtain ⟨cell, place, entry⟩ := same
    rw [← cell, ← place, ← entry]
  rw [whole]
  cases sound with
  | absent place cell submitter untouched cancels =>
    obtain ⟨results, executions, starts⟩ := untouched
    exact .absent place cell submitter ⟨results, executions, starts⟩ cancels
  | created place cell submitter untouched cancels =>
    obtain ⟨results, executions, starts⟩ := untouched
    exact .created place cell submitter ⟨results, executions, starts⟩ cancels
  | queued place cell submitter untouched cancels =>
    obtain ⟨results, executions, starts⟩ := untouched
    exact .queued place cell submitter ⟨results, executions, starts⟩ cancels
  | withdrawn place cell submitter untouched cancels =>
    obtain ⟨results, executions, starts⟩ := untouched
    exact .withdrawn place cell submitter ⟨results, executions, starts⟩ cancels
  | examined place cell submitter results executions starts cancels =>
    exact .examined place cell submitter results executions starts cancels
  | settling ops place state cell decided settles =>
    exact .settling ops place state cell decided (settles.promises _ _)
  | gone place cell settles => exact .gone place cell (settles.promises _ _)

theorem Sound.of_absent {view : View} (sound : view.Sound)
    (absent : view.entry.submitter = .absent) : view.place = .away ∧ view.cell = none := by
  cases sound with
  | absent place cell => exact ⟨place, cell⟩
  | created _ _ submitter => rw [absent] at submitter; cases submitter
  | queued _ _ submitter => rw [absent] at submitter; cases submitter
  | withdrawn _ _ submitter => rw [absent] at submitter; cases submitter
  | examined _ _ submitter => rw [absent] at submitter; cases submitter
  | settling _ _ _ _ _ settles => exact absurd absent settles.enqueued.1
  | gone _ _ settles => exact absurd absent settles.enqueued.1

theorem Sound.of_created {view : View} (sound : view.Sound)
    (created : view.entry.submitter = .created) :
    view.place = .away ∧ view.cell = some .queued ∧ Untouched view.entry ∧
      view.entry.cancels = 0 := by
  cases sound with
  | created place cell _ untouched cancels => exact ⟨place, cell, untouched, cancels⟩
  | absent _ _ submitter => rw [created] at submitter; cases submitter
  | queued _ _ submitter => rw [created] at submitter; cases submitter
  | withdrawn _ _ submitter => rw [created] at submitter; cases submitter
  | examined _ _ submitter => rw [created] at submitter; cases submitter
  | settling _ _ _ _ _ settles => exact absurd created settles.enqueued.2
  | gone _ _ settles => exact absurd created settles.enqueued.2

/-- A submitter that goes on waiting changes nothing. -/
theorem Sound.wait {view : View} (sound : view.Sound) (waits : view.entry.submitter.waits = true)
    (submitter : Submitter) (still : submitter.waits = true) :
    ({ view with entry := { view.entry with submitter } } : View).Sound := by
  cases sound with
  | absent _ _ absent => rw [absent] at waits; cases waits
  | created _ _ created => rw [created] at waits; cases waits
  | queued place cell _ untouched cancels =>
    obtain ⟨results, executions, starts⟩ := untouched
    exact .queued place cell still ⟨results, executions, starts⟩ cancels
  | withdrawn _ _ returned => rw [returned] at waits; cases waits
  | examined place cell _ results executions starts cancels =>
    exact .examined place cell still results executions starts cancels
  | settling ops place state cell decided settles =>
    exact .settling ops place state cell decided (settles.wait waits still)
  | gone place cell settles => exact .gone place cell (settles.wait waits still)

/-- An answer that is there can be collected. -/
theorem Sound.collect {view : View} (sound : view.Sound)
    (waits : view.entry.submitter.waits = true) {answer : Answer} {rest : List Answer}
    (ready : view.entry.results = answer :: rest) :
    ({ view with
        entry := { view.entry with submitter := .returned (some answer) } } : View).Sound := by
  cases sound with
  | absent _ _ absent => rw [absent] at waits; cases waits
  | created _ _ created => rw [created] at waits; cases waits
  | queued _ _ _ untouched => rw [untouched.results] at ready; cases ready
  | withdrawn _ _ returned => rw [returned] at waits; cases waits
  | examined _ _ _ results => rw [results] at ready; cases ready
  | settling ops place state cell decided settles =>
    exact .settling ops place state cell decided (settles.collect waits ready)
  | gone place cell settles => exact .gone place cell (settles.collect waits ready)

/-- A command that a waiting submitter finds `Queued` is one that nobody has taken. -/
theorem Sound.of_queued {view : View} (sound : view.Sound)
    (waits : view.entry.submitter.waits = true) (cell : view.cell = some .queued) :
    (view.place = .queue ∨ view.place = .taken) ∧ Untouched view.entry ∧
      view.entry.cancels = 0 := by
  cases sound with
  | absent _ _ absent => rw [absent] at waits; cases waits
  | created _ _ created => rw [created] at waits; cases waits
  | queued place _ _ untouched cancels => exact ⟨place, untouched, cancels⟩
  | withdrawn _ _ returned => rw [returned] at waits; cases waits
  | examined _ executing => rw [executing] at cell; cases cell
  | settling _ _ state here decided =>
    rw [here] at cell
    exact absurd (Option.some.inj cell) decided
  | gone _ dead => rw [dead] at cell; cases cell

/-- Withdrawing a command in time. -/
theorem Sound.withdraw {view : View} (sound : view.Sound)
    (waits : view.entry.submitter.waits = true) (cell : view.cell = some .queued) :
    ({ view with
        entry := { System.note .cancelled view.entry with submitter := .returned none }
        cell := some .cancelled } : View).Sound := by
  obtain ⟨place, ⟨results, executions, starts⟩, cancels⟩ := sound.of_queued waits cell
  exact .withdrawn place rfl rfl ⟨results, executions, starts⟩
    (congrArg (· + 1) cancels)

theorem Sound.dequeue {view : View} (sound : view.Sound) (place : view.place = .queue) :
    ({ view with place := .taken } : View).Sound := by
  cases sound with
  | absent away => rw [place] at away; cases away
  | created away => rw [place] at away; cases away
  | queued _ cell submitter untouched cancels =>
    exact .queued (.inr rfl) cell submitter untouched cancels
  | withdrawn _ cell submitter untouched cancels =>
    exact .withdrawn (.inr rfl) cell submitter untouched cancels
  | examined away => rw [place] at away; cases away
  | settling _ away => rw [place] at away; cases away
  | gone away => rw [place] at away; cases away

/-- A command that was dequeued lives, untouched, and is queued or withdrawn. -/
theorem Sound.of_taken {view : View} (sound : view.Sound) (place : view.place = .taken) :
    Untouched view.entry ∧
      (view.cell = some .queued ∧ view.entry.submitter.waits = true ∧ view.entry.cancels = 0 ∨
        view.cell = some .cancelled ∧ view.entry.submitter = .returned none ∧
          view.entry.cancels = 1) := by
  cases sound with
  | absent away => rw [place] at away; cases away
  | created away => rw [place] at away; cases away
  | queued _ cell submitter untouched cancels => exact ⟨untouched, .inl ⟨cell, submitter, cancels⟩⟩
  | withdrawn _ cell submitter untouched cancels =>
    exact ⟨untouched, .inr ⟨cell, submitter, cancels⟩⟩
  | examined away => rw [place] at away; cases away
  | settling _ away => rw [place] at away; cases away
  | gone away => rw [place] at away; cases away

theorem Sound.start {view : View} (sound : view.Sound) (place : view.place = .taken)
    (cell : view.cell = some .queued) :
    ({ view with
        entry := System.note .executing view.entry, cell := some .executing
        place := .examined } : View).Sound := by
  obtain ⟨⟨results, executions, starts⟩, ⟨_, waits, cancels⟩ | ⟨lost, _⟩⟩ := sound.of_taken place
  · exact .examined rfl rfl waits results executions (congrArg (· + 1) starts) cancels
  · rw [cell] at lost
    cases lost

/-- A command whose submitter has withdrawn it, in the hands of the emulation thread. -/
theorem Sound.lose {view : View} (sound : view.Sound) (place : view.place = .taken)
    (lost : view.cell ≠ some .queued) (ops : List Op) (idle : ops.count .execute = 0)
    (last : answersLast ops = true) :
    ({ view with place := .performing ops } : View).Sound := by
  obtain ⟨⟨results, executions, starts⟩, ⟨cell, _⟩ | ⟨cell, returned, cancels⟩⟩ :=
    sound.of_taken place
  · exact absurd cell lost
  · refine .settling ops rfl .cancelled cell nofun ⟨?_, last, fun _ => idle, .inr ⟨returned, ?_⟩⟩
    · dsimp only
      omega
    · dsimp only
      omega

theorem Sound.drain {view : View} (sound : view.Sound) (place : view.place = .taken)
    (cell : view.cell = some .queued) :
    ({ view with
        entry := System.note .cancelled view.entry, cell := some .cancelled
        place := .performing (drainProgram view.entry.request) } : View).Sound := by
  obtain ⟨⟨results, executions, starts⟩, ⟨_, waits, cancels⟩ | ⟨lost, _⟩⟩ := sound.of_taken place
  · obtain ⟨answer, idle, last⟩ := drainProgram_spec view.entry.request
    refine .settling _ rfl .cancelled rfl nofun
      ⟨?_, last, fun _ => idle, .inl ⟨.drained, ?_, nofun, ?_, .inl waits⟩⟩
    · change view.entry.starts + (view.entry.cancels + 1) = 1
      omega
    · change view.entry.results ++ _ = _
      rw [results, answer]
      rfl
    · change view.entry.executions + _ = 0
      omega
  · rw [cell] at lost
    cases lost

/-- A command that was won for execution is settled by a program with one answer. -/
theorem Sound.settle {view : View} (sound : view.Sound) (place : view.place = .examined)
    (ops : List Op) (answer : Answer) (real : answer ≠ .cancelled) (once : answers ops = [answer])
    (work : ops.count .execute = if answer = .executed then 1 else 0)
    (last : answersLast ops = true) :
    ({ view with place := .performing ops } : View).Sound := by
  cases sound with
  | absent away => rw [place] at away; cases away
  | created away => rw [place] at away; cases away
  | queued away => rw [place] at away; rcases away with away | away <;> cases away
  | withdrawn away => rw [place] at away; rcases away with away | away <;> cases away
  | examined _ cell submitter results executions starts cancels =>
    refine .settling ops rfl .executing cell nofun ⟨?_, last, ?_, .inl ⟨answer, ?_, real, ?_,
      .inl submitter⟩⟩
    · dsimp only
      omega
    · exact fun answered => absurd results answered
    · dsimp only
      rw [results, once]
      rfl
    · dsimp only
      rw [executions, Nat.zero_add, work]
  | settling _ away => rw [place] at away; cases away
  | gone away => rw [place] at away; cases away

/-- A command in the hands of the emulation thread lives. -/
theorem Sound.of_performing {view : View} (sound : view.Sound) {ops : List Op}
    (place : view.place = .performing ops) :
    (∃ state, view.cell = some state ∧ state ≠ .queued) ∧ Settles view.entry ops := by
  cases sound with
  | absent away => rw [place] at away; cases away
  | created away => rw [place] at away; cases away
  | queued away => rw [place] at away; rcases away with away | away <;> cases away
  | withdrawn away => rw [place] at away; rcases away with away | away <;> cases away
  | examined away => rw [place] at away; cases away
  | settling _ here state cell decided settles =>
    rw [place] at here
    cases here
    exact ⟨⟨state, cell, decided⟩, settles⟩
  | gone away => rw [place] at away; cases away

/-- A command that is away is not enqueued yet, or is settled. -/
theorem Sound.of_away {view : View} (sound : view.Sound) (place : view.place = .away) :
    view.entry.submitter = .absent ∨ view.entry.submitter = .created ∨
      Settles view.entry [] := by
  cases sound with
  | absent _ _ submitter => exact .inl submitter
  | created _ _ submitter => exact .inr (.inl submitter)
  | queued away => rw [place] at away; rcases away with away | away <;> cases away
  | withdrawn away => rw [place] at away; rcases away with away | away <;> cases away
  | examined away => rw [place] at away; cases away
  | settling _ away => rw [place] at away; cases away
  | gone _ _ settles => exact .inr (.inr settles)

theorem Sound.release {view : View} (sound : view.Sound) (place : view.place = .performing []) :
    ({ view with cell := none, place := .away } : View).Sound :=
  .gone rfl rfl (sound.of_performing place).2

end View

end VectorDebugger.Commands

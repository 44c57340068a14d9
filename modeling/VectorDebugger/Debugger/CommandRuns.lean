import VectorDebugger.Debugger.CommandLife

/-!
# Runs of the command queue

What holds of every command at once, over every interleaving of the clients and the emulation
thread. A submitter that has timed out reaches its command through a bare pointer, and the
emulation thread may have destroyed the command by then. As long as no submitter withdraws, through
that pointer, a command that was made at the same address later, every command is settled once, by
its execution, by its refusal or by its withdrawal.
-/

namespace VectorDebugger.Commands

/-- What is left of the life of a command when it is over. -/
theorem Settles.settled {entry : Entry} {ops : List Op} (settles : Settles entry ops) :
    entry.starts + entry.cancels ≤ 1 ∧
      (entry.submitter = .returned none → entry.executions = 0) ∧
      ∀ answer, entry.submitter = .returned (some answer) →
        entry.results = [answer] ∧ answer ≠ .cancelled ∧
          entry.executions = if answer = .executed then 1 else 0 := by
  obtain ⟨decided, last, done, outcome⟩ := settles
  refine ⟨Nat.le_of_eq decided, ?_, ?_⟩
  · intro returned
    rcases outcome with ⟨_, _, _, _, waits | ⟨answered, _⟩⟩ | ⟨_, work⟩
    · rw [returned] at waits
      cases waits
    · rw [returned] at answered
      cases answered
    · omega
  · intro answer returned
    rcases outcome with ⟨given, once, real, work, waits | ⟨answered, results⟩⟩ | ⟨withdrawn, _⟩
    · rw [returned] at waits
      cases waits
    · rw [returned] at answered
      cases answered
      have idle := done (by rw [results]; exact List.cons_ne_nil _ _)
      rw [idle, Nat.add_zero] at work
      exact ⟨results, real, work⟩
    · rw [returned] at withdrawn
      cases withdrawn

/-- At every point of the life of a command its submitter has what it should have. -/
theorem View.Sound.settled {view : View} (sound : view.Sound) :
    view.entry.starts + view.entry.cancels ≤ 1 ∧
      (view.entry.submitter = .returned none → view.entry.executions = 0) ∧
      ∀ answer, view.entry.submitter = .returned (some answer) →
        view.entry.results = [answer] ∧ answer ≠ .cancelled ∧
          view.entry.executions = if answer = .executed then 1 else 0 := by
  have early : Untouched view.entry → view.entry.cancels ≤ 1 →
      (∀ answer, view.entry.submitter ≠ .returned (some answer)) → _ :=
    fun untouched cancels unanswered =>
      (⟨by rw [untouched.starts, Nat.zero_add]; exact cancels, fun _ => untouched.executions,
        fun answer returned => absurd returned (unanswered answer)⟩ :
        view.entry.starts + view.entry.cancels ≤ 1 ∧
          (view.entry.submitter = .returned none → view.entry.executions = 0) ∧
          ∀ answer, view.entry.submitter = .returned (some answer) →
            view.entry.results = [answer] ∧ answer ≠ .cancelled ∧
              view.entry.executions = if answer = .executed then 1 else 0)
  cases sound with
  | absent _ _ submitter untouched cancels =>
    exact early untouched (by omega) fun answer returned => by
      rw [submitter] at returned; cases returned
  | created _ _ submitter untouched cancels =>
    exact early untouched (by omega) fun answer returned => by
      rw [submitter] at returned; cases returned
  | queued _ _ waits untouched cancels =>
    exact early untouched (by omega) fun answer returned => by
      rw [returned] at waits; cases waits
  | withdrawn _ _ submitter untouched cancels =>
    exact early untouched (by omega) fun answer returned => by
      rw [submitter] at returned; cases returned
  | examined _ _ waits results executions starts cancels =>
    exact ⟨by omega, fun _ => executions, fun answer returned => by
      rw [returned] at waits; cases waits⟩
  | settling _ _ _ _ _ settles => exact settles.settled
  | gone _ _ settles => exact settles.settled

namespace System

/-- Every command is sound, in the queue once at most, and not held while it is in the queue. -/
structure Coherent (s : System) : Prop where
  /-- No command is in the queue twice. -/
  nodup : s.queue.Nodup
  /-- The command that the emulation thread holds has left the queue. -/
  held : ∀ id, s.control.current = some id → id ∉ s.queue
  /-- Each command is sound. -/
  sound : ∀ id, (s.view id).Sound

/-- A submitter that finds `Queued` at its pointer finds it in its own command. -/
def OwnCommand (s : System) : Action → Prop
  | .cancel id =>
    (s.memory (s.entries id).address).state = .queued →
      (s.memory (s.entries id).address).owner = some id
  | _ => True

/-- A step in which no submitter withdraws the command of another. -/
def LiveStep (s : System) (a : Action) (after : System) : Prop :=
  s.step a = some after ∧ s.OwnCommand a

/-- The steps of the emulation thread. -/
inductive Emulates (s : System) : System → Prop
  | /-- From one test to the next. -/
    goes {point next : Point} (here : s.control = .at point) (going : next ≠ .returned) :
      Emulates s { s with control := .at next }
  | /-- The frame loop is left. -/
    leaves {point next : Point} {ops : List Op} (here : s.control = .at point)
      (going : next ≠ .returned) : Emulates s { s with control := .performing none ops next }
  | /-- The final drain finds the queue empty. -/
    closes (here : s.control = .at .drain) (empty : s.queue = []) :
      Emulates s { s with control := .performing none leaveFrames .returned }
  | /-- A command leaves the queue. -/
    dequeues {point : Point} {id : Nat} {rest : List Nat} {control : Control}
      (here : s.control = .at point) (queue : s.queue = id :: rest)
      (taken : (∃ inFrame, control = .taken id inFrame) ∨ control = .draining id) :
      Emulates s { s with queue := rest, control }
  | /-- Its `compare_exchange` to `Executing` succeeds. -/
    starts {id : Nat} {inFrame : Bool} (here : s.control = .taken id inFrame)
      (found : (s.memory (s.entries id).address).state = .queued) :
      Emulates s
        { s.exchange (s.entries id).address .executing with control := .examined id inFrame }
  | /-- A `compare_exchange` on it fails. -/
    loses {id : Nat} {ops : List Op} {next : Point}
      (here : (∃ inFrame, s.control = .taken id inFrame) ∧ ops = withdrawn ∨
        s.control = .draining id ∧ ops = [])
      (lost : (s.memory (s.entries id).address).state ≠ .queued) (going : next ≠ .returned) :
      Emulates s { s with control := .performing (some id) ops next }
  | /-- It is refused because of a quit request. -/
    refuses {id : Nat} {inFrame : Bool} {next : Point} (here : s.control = .examined id inFrame)
      (quit : s.quitRequested = true) (going : next ≠ .returned) :
      Emulates s { s with control := .performing (some id) refusal next }
  | /-- It is executed. -/
    runs {id : Nat} {inFrame : Bool} {next : Point} (here : s.control = .examined id inFrame)
      (going : next ≠ .returned) :
      Emulates s
        { s with control := .performing (some id) (program (s.entries id).request) next }
  | /-- The final drain withdraws it. -/
    drains {id : Nat} (here : s.control = .draining id)
      (found : (s.memory (s.entries id).address).state = .queued) :
      Emulates s
        { s.exchange (s.entries id).address .cancelled with
          control := .performing (some id) (drainProgram (s.entries id).request) .drain }
  | /-- One operation. -/
    performs {current : Option Nat} {op : Op} {ops : List Op} {next : Point}
      (here : s.control = .performing current (op :: ops) next) :
      Emulates s { s.perform current op with control := .performing current ops next }
  | /-- The command is destroyed. -/
    releases {id : Nat} {next : Point} (here : s.control = .performing (some id) [] next) :
      Emulates s { s.release id with control := .at next }
  | /-- No command was held. -/
    ends {next : Point} (here : s.control = .performing none [] next) :
      Emulates s { s with control := .at next }

theorem afterCommand_going (inFrame goesOn : Bool) : afterCommand inFrame goesOn ≠ .returned := by
  cases inFrame <;> cases goesOn <;> exact nofun

/-- The emulation thread takes no other step. -/
theorem emulates {s after : System} {stays : Bool} (step : s.emulate stays = some after) :
    s.Emulates after := by
  unfold emulate at step
  split at step
  · rename_i here
    cases step
    refine .goes here ?_
    split <;> exact nofun
  · rename_i here
    cases step
    split
    · exact .goes here nofun
    · exact .leaves here nofun
  · rename_i here
    cases step
    refine .goes here ?_
    split <;> exact nofun
  · rename_i here
    split at step
    · cases step
      exact .goes here nofun
    · rename_i queue
      cases step
      exact .dequeues here queue (.inl ⟨true, rfl⟩)
  · rename_i here
    cases step
    split
    · exact .goes here nofun
    · exact .leaves here nofun
  · rename_i here
    cases step
    refine .goes here ?_
    split <;> exact nofun
  · rename_i here
    split at step
    · cases step
    · rename_i queue
      cases step
      exact .dequeues here queue (.inl ⟨false, rfl⟩)
  · rename_i here
    split at step
    · rename_i empty
      cases step
      exact .closes here empty
    · rename_i queue
      cases step
      exact .dequeues here queue (.inr rfl)
  · cases step
  · rename_i inFrame here
    dsimp only at step
    split at step
    · rename_i found
      cases step
      exact .starts here found
    · rename_i lost
      cases step
      exact .loses (.inl ⟨⟨inFrame, here⟩, rfl⟩) lost (afterCommand_going _ _)
  · rename_i here
    dsimp only at step
    split at step
    · rename_i quit
      cases step
      rw [Bool.and_eq_true] at quit
      exact .refuses here quit.1 (afterCommand_going _ _)
    · cases step
      exact .runs here (afterCommand_going _ _)
  · rename_i here
    dsimp only at step
    split at step
    · rename_i found
      cases step
      exact .drains here found
    · rename_i lost
      cases step
      exact .loses (.inr ⟨here, rfl⟩) lost nofun
  · rename_i here
    cases step
    exact .performs here
  · rename_i here
    cases step
    exact .releases here
  · rename_i here
    cases step
    exact .ends here

/-! ### Views under a step of the emulation thread -/

theorem place_of_mem {s : System} {id : Nat} (queued : id ∈ s.queue) : s.place id = .queue :=
  if_pos queued

theorem place_of_not_mem {s : System} {id : Nat} (out : id ∉ s.queue) :
    s.place id = s.control.place id := if_neg out

/-- A command that is away is neither in the queue nor held. -/
theorem away_iff {s : System} {id : Nat} :
    s.place id = .away ↔ id ∉ s.queue ∧ s.control.place id = .away := by
  by_cases queued : id ∈ s.queue
  · rw [place_of_mem queued]
    exact ⟨nofun, fun away => absurd queued away.1⟩
  · rw [place_of_not_mem queued]
    exact ⟨fun away => ⟨queued, away⟩, And.right⟩

theorem control_place_of_current {control : Control} {id : Nat}
    (held : control.current = some id) : control.place id ≠ .away := by
  cases control with
  | «at» point => cases held
  | performing current ops next =>
    change current = some id at held
    subst held
    simp [Control.place]
  | _ =>
    cases held
    simp [Control.place]

/-- The emulation thread goes on with the command it holds, or leaves it: the others are where
they were. -/
theorem steer_view_ne {s : System} {control : Control} {id other : Nat}
    (held : s.control.current = some id ∨ s.control.current = none)
    (next : control.current = some id ∨ control.current = none) (ne : other ≠ id) :
    ({ s with control } : System).view other = s.view other := by
  have away : ∀ control : Control, control.current = some id ∨ control.current = none →
      control.place other = .away := by
    rintro control (held | idle)
    · exact Control.place_of_ne held ne
    · exact Control.place_of_current_none idle other
  refine view_congr rfl rfl ?_ rfl
  unfold place
  dsimp only
  rw [away _ held, away _ next]

theorem steer_view {s : System} {id : Nat} (out : id ∉ s.queue) (control : Control) :
    ({ s with control } : System).view id = { s.view id with place := control.place id } := by
  unfold view place
  dsimp only
  rw [if_neg out]
  rfl

theorem idle_view {s : System} {control : Control} (idle : s.control.current = none)
    (next : control.current = none) (id : Nat) :
    ({ s with control } : System).view id = s.view id := by
  refine view_congr rfl rfl ?_ rfl
  unfold place
  dsimp only
  rw [Control.place_of_current_none idle, Control.place_of_current_none next]

namespace Coherent

variable {s after : System}

/-- One command is moved, the others keep all but their promises of pauses and traces. -/
theorem of_move (coherent : s.Coherent) (id : Nat)
    (others : ∀ other, other ≠ id → (s.view other).SameButPromises (after.view other))
    (self : (after.view id).Sound) (nodup : after.queue.Nodup)
    (held : ∀ id, after.control.current = some id → id ∉ after.queue) : after.Coherent where
  nodup := nodup
  held := held
  sound := by
    intro other
    by_cases same : other = id
    · rw [same]
      exact self
    · exact (coherent.sound other).of_same (others other same)

/-- No command is moved. -/
theorem of_views (coherent : s.Coherent) (same : ∀ id, after.view id = s.view id)
    (queue : after.queue = s.queue)
    (held : ∀ id, after.control.current = some id → s.control.current = some id) :
    after.Coherent where
  nodup := queue ▸ coherent.nodup
  held := fun id current => queue ▸ coherent.held id (held id current)
  sound := fun id => by
    rw [same id]
    exact coherent.sound id

/-- The emulation thread moves between two commands. -/
theorem of_idle (coherent : s.Coherent) {control : Control} (idle : s.control.current = none)
    (next : control.current = none) : ({ s with control } : System).Coherent :=
  coherent.of_views (idle_view idle next) rfl fun _ held =>
    absurd (next.symm.trans held) nofun

/-- The command that is first in the queue is taken out of it. -/
theorem dequeue_view (coherent : s.Coherent) {id : Nat} {rest : List Nat} {control : Control}
    (queue : s.queue = id :: rest) (place : control.place id = .taken) :
    (s.view id).place = .queue ∧
      ({ s with queue := rest, control } : System).view id =
        { s.view id with place := .taken } := by
  have nodup := coherent.nodup
  rw [queue, List.nodup_cons] at nodup
  refine ⟨place_of_mem (by rw [queue]; exact List.mem_cons_self), ?_⟩
  unfold view System.place
  dsimp only
  rw [if_neg nodup.1, place]
  rfl

/-- The others stay where they are. -/
theorem dequeue_view_ne {id other : Nat} {rest : List Nat} {control : Control}
    (queue : s.queue = id :: rest) (idle : s.control.current = none)
    (current : control.current = some id) (ne : other ≠ id) :
    ({ s with queue := rest, control } : System).view other = s.view other := by
  refine view_congr rfl rfl ?_ rfl
  unfold System.place
  dsimp only
  rw [queue, Control.place_of_ne current ne, Control.place_of_current_none idle]
  simp [ne]

/-- The emulation thread takes the first command of the queue. -/
theorem of_dequeue (coherent : s.Coherent) {id : Nat} {rest : List Nat} {control : Control}
    (queue : s.queue = id :: rest) (idle : s.control.current = none)
    (current : control.current = some id) (place : control.place id = .taken) :
    ({ s with queue := rest, control } : System).Coherent := by
  have nodup := coherent.nodup
  rw [queue, List.nodup_cons] at nodup
  obtain ⟨here, moved⟩ := coherent.dequeue_view queue place
  refine coherent.of_move id
    (fun other ne => .of_eq (dequeue_view_ne queue idle current ne)) ?_ nodup.2 fun held now => ?_
  · rw [moved]
    exact (coherent.sound id).dequeue here
  · cases current.symm.trans now
    exact nodup.1

/-- The place of the command that the emulation thread holds. -/
theorem place_current (coherent : s.Coherent) {id : Nat} (held : s.control.current = some id) :
    (s.view id).place = s.control.place id :=
  place_of_not_mem (coherent.held id held)

/-- The memory of the held command is its own. -/
theorem owner_of_cell {id : Nat} {state : CommandState} (cell : (s.view id).cell = some state) :
    (s.memory (s.entries id).address).owner = some id :=
  (cell_eq_some.mp cell).1

end Coherent

/-! ### What each operation shows -/

/-- What an operation does to the state of the command in memory. -/
def cellAfter (op : Op) (cell : Option CommandState) : Option CommandState :=
  if op = .complete then some .completed else cell

theorem fulfillPausePromises_keeps (s : System) :
    s.fulfillPausePromises.queue = s.queue ∧ s.fulfillPausePromises.control = s.control ∧
      ∀ id, (s.view id).SameButPromises (s.fulfillPausePromises.view id) :=
  ⟨rfl, rfl, fun id => by
    rw [fulfillPausePromises_view]
    exact ⟨rfl, rfl, rfl⟩⟩

theorem perform_keeps (s : System) (current : Option Nat) (op : Op) :
    (s.perform current op).queue = s.queue ∧ (s.perform current op).control = s.control := by
  cases op with
  | fulfilPendingIfPaused =>
    unfold perform
    dsimp only
    split
    · exact ⟨rfl, rfl⟩
    · exact ⟨rfl, rfl⟩
  | _ => cases current <;> exact ⟨rfl, rfl⟩

/-- An operation on no command changes promises of pauses at most. -/
theorem perform_none (s : System) (op : Op) (id : Nat) :
    (s.view id).SameButPromises ((s.perform none op).view id) := by
  cases op with
  | fulfilPending => exact s.fulfillPausePromises_keeps.2.2 id
  | fulfilPendingIfPaused =>
    unfold perform
    dsimp only
    split
    · exact s.fulfillPausePromises_keeps.2.2 id
    · exact .of_eq rfl
  | _ => exact .of_eq rfl

/-- An operation changes promises of pauses at most of the commands it is not about. -/
theorem perform_view_ne (s : System) {id other : Nat} (op : Op)
    (owner : (s.memory (s.entries id).address).owner = some id) (ne : other ≠ id) :
    (s.view other).SameButPromises ((s.perform (some id) op).view other) := by
  cases op with
  | fulfilPending => exact s.fulfillPausePromises_keeps.2.2 other
  | fulfilPendingIfPaused => exact s.perform_none .fulfilPendingIfPaused other
  | complete => exact .of_eq (s.store_view_ne .completed owner ne)
  | pushPending => exact ⟨rfl, rfl, rfl⟩
  | execute =>
    exact .of_eq (modify_view_ne { s with executed := s.executed ++ [id] }
      (fun entry => { entry with executions := entry.executions + 1 }) ne)
  | answer given =>
    exact .of_eq (s.modify_view_ne
      (fun entry => { entry with results := entry.results ++ [given] }) ne)
  | fulfilPause =>
    exact .of_eq (s.modify_view_ne (fun entry => { entry with pauses := entry.pauses + 1 }) ne)
  | fulfilTrace =>
    exact .of_eq (s.modify_view_ne (fun entry => { entry with traces := entry.traces + 1 }) ne)
  | setRunning => exact .of_eq rfl
  | setPaused => exact .of_eq rfl
  | raiseQuit => exact .of_eq rfl

/-- What an operation does to the command it is about. -/
theorem perform_view (s : System) (id : Nat) (op : Op)
    (owner : (s.memory (s.entries id).address).owner = some id) :
    View.SameButPromises
      { s.view id with entry := op.on (s.entries id), cell := cellAfter op (s.cell id) }
      ((s.perform (some id) op).view id) := by
  cases op with
  | fulfilPending => exact s.fulfillPausePromises_keeps.2.2 id
  | fulfilPendingIfPaused => exact s.perform_none .fulfilPendingIfPaused id
  | complete => exact .of_eq (s.store_view id .completed owner)
  | pushPending => exact ⟨rfl, rfl, rfl⟩
  | execute =>
    exact .of_eq (modify_view { s with executed := s.executed ++ [id] } id
      (fun entry => { entry with executions := entry.executions + 1 }) rfl)
  | answer given =>
    exact .of_eq (s.modify_view id
      (fun entry => { entry with results := entry.results ++ [given] }) rfl)
  | fulfilPause =>
    have changed : s.perform (some id) .fulfilPause =
        s.modify id (fun entry => { entry with pauses := entry.pauses + 1 }) := rfl
    rw [changed, s.modify_view id _ rfl]
    exact ⟨rfl, rfl, rfl⟩
  | fulfilTrace =>
    have changed : s.perform (some id) .fulfilTrace =
        s.modify id (fun entry => { entry with traces := entry.traces + 1 }) := rfl
    rw [changed, s.modify_view id _ rfl]
    exact ⟨rfl, rfl, rfl⟩
  | setRunning => exact .of_eq rfl
  | setPaused => exact .of_eq rfl
  | raiseQuit => exact .of_eq rfl

namespace Coherent

variable {s : System}

/-- The emulation thread performs an operation on the command it holds. -/
theorem perform (coherent : s.Coherent) {id : Nat} {op : Op} {ops : List Op} {next : Point}
    (control : s.control = .performing (some id) (op :: ops) next) :
    ({ s.perform (some id) op with
      control := .performing (some id) ops next } : System).Coherent := by
  have current : s.control.current = some id := by rw [control]; rfl
  have out := coherent.held id current
  have place : (s.view id).place = .performing (op :: ops) := by
    rw [coherent.place_current current, control]
    exact if_pos rfl
  obtain ⟨⟨state, cell, decided⟩, settles⟩ := (coherent.sound id).of_performing place
  have owner := owner_of_cell cell
  obtain ⟨queue, same⟩ := s.perform_keeps (some id) op
  have held : (s.perform (some id) op).control.current = some id := by rw [same]; exact current
  have left : id ∉ (s.perform (some id) op).queue := by rw [queue]; exact out
  refine coherent.of_move id (fun other ne => ?_) ?_ (queue ▸ coherent.nodup) fun now is => ?_
  · rw [steer_view_ne (.inl held) (.inl rfl) ne]
    exact s.perform_view_ne op owner ne
  · rw [steer_view left]
    obtain ⟨cell', _, entry⟩ := s.perform_view id op owner
    obtain ⟨state', present, decided'⟩ : ∃ state', cellAfter op (s.cell id) = some state' ∧
        state' ≠ .queued := by
      unfold cellAfter
      split
      · exact ⟨.completed, rfl, nofun⟩
      · exact ⟨state, cell, decided⟩
    refine .settling ops (if_pos rfl) state' (cell'.trans present) decided' ?_
    dsimp only at entry ⊢
    rw [entry]
    exact settles.perform.promises _ _
  · cases is
    exact left

/-- The emulation thread performs an operation outside any command. -/
theorem perform_none (coherent : s.Coherent) {op : Op} {ops : List Op} {next : Point}
    (control : s.control = .performing none (op :: ops) next) :
    ({ s.perform none op with control := .performing none ops next } : System).Coherent := by
  obtain ⟨queue, same⟩ := s.perform_keeps none op
  have idle : s.control.current = none := by rw [control]; rfl
  have still : (s.perform none op).control.current = none := by rw [same]; exact idle
  refine ⟨queue ▸ coherent.nodup, fun _ => nofun, fun id => ?_⟩
  rw [idle_view still rfl]
  exact (coherent.sound id).of_same (s.perform_none op id)

/-- The emulation thread destroys the command it holds. -/
theorem release (coherent : s.Coherent) {id : Nat} {next : Point}
    (control : s.control = .performing (some id) [] next) :
    ({ s.release id with control := .at next } : System).Coherent := by
  have current : s.control.current = some id := by rw [control]; rfl
  have out := coherent.held id current
  have place : (s.view id).place = .performing [] := by
    rw [coherent.place_current current, control]
    exact if_pos rfl
  obtain ⟨⟨state, cell, _⟩, _⟩ := (coherent.sound id).of_performing place
  have owner := owner_of_cell cell
  refine coherent.of_move id (fun other ne => .of_eq ?_) ?_ coherent.nodup fun _ => nofun
  · rw [@steer_view_ne (s.release id) (.at next) id other (.inl current) (.inr rfl) ne]
    exact s.release_view_ne owner ne
  · rw [@steer_view (s.release id) id out, s.release_view id]
    exact (coherent.sound id).release place

/-- The command just dequeued is withdrawn already: it is destroyed after these operations. -/
theorem lose (coherent : s.Coherent) {id : Nat} {ops : List Op} {next : Point}
    (current : s.control.current = some id) (taken : s.control.place id = .taken)
    (lost : (s.memory (s.entries id).address).state ≠ .queued)
    (idle : ops.count .execute = 0) (last : answersLast ops = true) :
    ({ s with control := .performing (some id) ops next } : System).Coherent := by
  have out := coherent.held id current
  have place := (coherent.place_current current).trans taken
  have other : (s.view id).cell ≠ some .queued := fun cell => lost (cell_eq_some.mp cell).2
  refine coherent.of_move id (fun other ne => .of_eq (steer_view_ne (.inl current) (.inl rfl) ne))
    ?_ coherent.nodup fun now is => ?_
  · rw [steer_view out]
    have here : (Control.performing (some id) ops next).place id = .performing ops := if_pos rfl
    rw [here]
    exact (coherent.sound id).lose place other ops idle last
  · cases is
    exact out

/-- The command just dequeued, if it is still `Queued`, lives at its address. -/
theorem taken_cell (coherent : s.Coherent) {id : Nat} (current : s.control.current = some id)
    (taken : s.control.place id = .taken)
    (found : (s.memory (s.entries id).address).state = .queued) :
    (s.view id).cell = some .queued := by
  have place := (coherent.place_current current).trans taken
  obtain ⟨_, waiting | withdrawn⟩ := (coherent.sound id).of_taken place
  · exact waiting.1
  · exact absurd ((cell_eq_some.mp withdrawn.1).2.symm.trans found) nofun

theorem exchange_machinery (s : System) (address : Nat) (desired : CommandState) :
    (s.exchange address desired).queue = s.queue ∧
      (s.exchange address desired).control = s.control := by
  unfold exchange
  dsimp only
  split
  · exact ⟨rfl, rfl⟩
  · exact ⟨rfl, rfl⟩

/-- What a successful `compare_exchange` of the emulation thread shows. -/
theorem win_view (coherent : s.Coherent) {id : Nat} (desired : CommandState) {control : Control}
    (current : s.control.current = some id) (taken : s.control.place id = .taken)
    (found : (s.memory (s.entries id).address).state = .queued)
    (next : control.current = some id) :
    (∀ other, other ≠ id →
      ({ s.exchange (s.entries id).address desired with control } : System).view other =
        s.view other) ∧
      ({ s.exchange (s.entries id).address desired with control } : System).view id =
        { s.view id with
          entry := note desired (s.entries id), cell := some desired
          place := control.place id } := by
  have owner := owner_of_cell (coherent.taken_cell current taken found)
  obtain ⟨queue, same⟩ := exchange_machinery s (s.entries id).address desired
  have held : (s.exchange (s.entries id).address desired).control.current = some id := by
    rw [same]
    exact current
  have left : id ∉ (s.exchange (s.entries id).address desired).queue := by
    rw [queue]
    exact coherent.held id current
  refine ⟨fun other ne => ?_, ?_⟩
  · rw [steer_view_ne (.inl held) (.inl next) ne, s.exchange_view_ne desired owner ne]
  · rw [steer_view left, s.exchange_view id desired owner]

/-- The emulation thread wins the command it has just dequeued. -/
theorem win (coherent : s.Coherent) {id : Nat} {desired : CommandState} {control : Control}
    (current : s.control.current = some id) (taken : s.control.place id = .taken)
    (found : (s.memory (s.entries id).address).state = .queued)
    (next : control.current = some id)
    (sound : (s.view id).place = .taken → (s.view id).cell = some .queued →
      ({ s.view id with
        entry := note desired (s.entries id), cell := some desired
        place := control.place id } : View).Sound) :
    ({ s.exchange (s.entries id).address desired with control } : System).Coherent := by
  obtain ⟨others, self⟩ := coherent.win_view desired current taken found next
  have queue := (exchange_machinery s (s.entries id).address desired).1
  refine coherent.of_move id (fun other ne => .of_eq (others other ne)) ?_
    (queue ▸ coherent.nodup) fun now is => ?_
  · rw [self]
    exact sound ((coherent.place_current current).trans taken)
      (coherent.taken_cell current taken found)
  · cases next.symm.trans is
    exact queue ▸ coherent.held id current

/-- The emulation thread settles on what to do with the command it has won. -/
theorem settle (coherent : s.Coherent) (answer : Answer) {id : Nat} {ops : List Op} {next : Point}
    (current : s.control.current = some id) (examined : s.control.place id = .examined)
    (real : answer ≠ .cancelled) (once : answers ops = [answer])
    (work : ops.count .execute = if answer = .executed then 1 else 0)
    (last : answersLast ops = true) :
    ({ s with control := .performing (some id) ops next } : System).Coherent := by
  have out := coherent.held id current
  have place := (coherent.place_current current).trans examined
  refine coherent.of_move id (fun other ne => .of_eq (steer_view_ne (.inl current) (.inl rfl) ne))
    ?_ coherent.nodup fun now is => ?_
  · rw [steer_view out]
    have here : (Control.performing (some id) ops next).place id = .performing ops := if_pos rfl
    rw [here]
    exact (coherent.sound id).settle place ops answer real once work last
  · cases is
    exact out

/-- A step of the emulation thread. -/
theorem emulate (coherent : s.Coherent) {after : System} (step : s.Emulates after) :
    after.Coherent := by
  cases step with
  | goes here => exact coherent.of_idle (by rw [here]; rfl) rfl
  | leaves here => exact coherent.of_idle (by rw [here]; rfl) rfl
  | closes here => exact coherent.of_idle (by rw [here]; rfl) rfl
  | ends here => exact coherent.of_idle (by rw [here]; rfl) rfl
  | @dequeues point id rest control here queue taken =>
    have idle : s.control.current = none := by rw [here]; rfl
    obtain ⟨inFrame, rfl⟩ | rfl := taken
    · exact coherent.of_dequeue queue idle rfl (if_pos rfl)
    · exact coherent.of_dequeue queue idle rfl (if_pos rfl)
  | @starts id inFrame here found =>
    refine coherent.win (by rw [here]; rfl) (by rw [here]; exact if_pos rfl) found rfl
      fun place cell => ?_
    have examined : (Control.examined id inFrame).place id = .examined := if_pos rfl
    rw [examined]
    exact (coherent.sound id).start place cell
  | @drains id here found =>
    refine coherent.win (by rw [here]; rfl) (by rw [here]; exact if_pos rfl) found rfl
      fun place cell => ?_
    have performing : (Control.performing (some id) (drainProgram (s.entries id).request)
        .drain).place id = .performing (drainProgram (s.entries id).request) := if_pos rfl
    rw [performing]
    exact (coherent.sound id).drain place cell
  | loses here lost =>
    obtain ⟨⟨inFrame, taken⟩, rfl⟩ | ⟨draining, rfl⟩ := here
    · exact coherent.lose (by rw [taken]; rfl) (by rw [taken]; exact if_pos rfl) lost rfl rfl
    · exact coherent.lose (by rw [draining]; rfl) (by rw [draining]; exact if_pos rfl) lost rfl rfl
  | refuses here =>
    exact coherent.settle .refused (by rw [here]; rfl) (by rw [here]; exact if_pos rfl) nofun rfl
      rfl rfl
  | @runs id inFrame next here =>
    obtain ⟨once, work, last⟩ := program_spec (s.entries id).request
    exact coherent.settle .executed (by rw [here]; rfl) (by rw [here]; exact if_pos rfl) nofun once
      work last
  | @performs current op ops next here =>
    cases current with
    | some id => exact coherent.perform here
    | none => exact coherent.perform_none here
  | releases here => exact coherent.release here

/-! ### The clients -/

/-- A command is made at an address where none lives. -/
theorem create (coherent : s.Coherent) {id address : Nat} {request : Request} {after : System}
    (step : s.step (.create id address request) = some after) : after.Coherent := by
  dsimp only [System.step] at step
  split at step
  · rename_i allowed
    cases step
    obtain ⟨absent, free, _⟩ := allowed
    obtain ⟨away, _⟩ := (coherent.sound id).of_absent absent
    refine coherent.of_move id (fun other ne => .of_eq (view_congr ?_ ?_ rfl rfl)) ?_ coherent.nodup
      coherent.held
    · exact Function.update_of_ne ne ..
    · unfold cell
      dsimp only
      rw [Function.update_of_ne ne]
      by_cases same : (s.entries other).address = address
      · rw [same, Function.update_self, free, if_neg (by simp [ne.symm]), if_neg (by simp)]
      · rw [Function.update_of_ne same]
    · have made : Function.update s.entries id
          { Entry.vacant with request, address, submitter := .created } id =
            { Entry.vacant with request, address, submitter := .created } :=
        Function.update_self ..
      refine .created away ?_ ?_ ⟨?_, ?_, ?_⟩ ?_
      · unfold view cell
        simp
      · exact congrArg Entry.submitter made
      · exact congrArg Entry.results made
      · exact congrArg Entry.executions made
      · exact congrArg Entry.starts made
      · exact congrArg Entry.cancels made
  · cases step

/-- A submitter's own part of its command changes. -/
theorem of_modify (coherent : s.Coherent) {id : Nat} {change : Entry → Entry}
    (address : (change (s.entries id)).address = (s.entries id).address)
    (sound : ({ s.view id with entry := change (s.entries id) } : View).Sound) :
    (s.modify id change).Coherent := by
  refine coherent.of_move id (fun other ne => .of_eq (s.modify_view_ne change ne)) ?_
    coherent.nodup coherent.held
  rw [s.modify_view id change address]
  exact sound

theorem timeOut (coherent : s.Coherent) {id : Nat} {after : System}
    (step : s.step (.timeOut id) = some after) : after.Coherent := by
  dsimp only [System.step] at step
  split at step
  · rename_i allowed
    cases step
    have waits : (s.view id).entry.submitter.waits = true := by
      change (s.entries id).submitter.waits = true
      rw [allowed.1]
      rfl
    exact coherent.of_modify rfl ((coherent.sound id).wait waits .timedOut rfl)
  · cases step

theorem load (coherent : s.Coherent) {id : Nat} {after : System}
    (step : s.step (.load id) = some after) : after.Coherent := by
  dsimp only [System.step] at step
  split at step
  · rename_i timedOut
    cases step
    have waits : (s.view id).entry.submitter.waits = true := by
      change (s.entries id).submitter.waits = true
      rw [timedOut]
      rfl
    refine coherent.of_modify rfl ((coherent.sound id).wait waits _ ?_)
    split <;> rfl
  · cases step

theorem cancel (coherent : s.Coherent) {id : Nat} {after : System}
    (step : s.step (.cancel id) = some after) (own : s.OwnCommand (.cancel id)) :
    after.Coherent := by
  dsimp only [System.step] at step
  split at step
  · rename_i cancelling
    have waits : (s.view id).entry.submitter.waits = true := by
      change (s.entries id).submitter.waits = true
      rw [cancelling]
      rfl
    split at step
    · rename_i found
      cases step
      have owner := own found
      have cell : (s.view id).cell = some .queued := cell_eq_some.mpr ⟨owner, found⟩
      have withdrawn := (coherent.sound id).withdraw waits cell
      rw [exchange_eq s id .cancelled owner]
      refine coherent.of_move id (fun other ne => .of_eq ?_) ?_ coherent.nodup coherent.held
      · rw [modify_view_ne _ _ ne, modify_view_ne _ _ ne, s.store_view_ne .cancelled owner ne]
      · have noted : ((s.store (s.entries id).address .cancelled).modify id
            (note .cancelled)).entries id = note .cancelled (s.entries id) :=
          Function.update_self ..
        rw [modify_view _ _ _ rfl, modify_view _ _ _ (note_address _ _),
          s.store_view id .cancelled owner, noted]
        exact withdrawn
    · cases step
      exact coherent.of_modify rfl ((coherent.sound id).wait waits .blocked rfl)
  · cases step

theorem collect (coherent : s.Coherent) {id : Nat} {after : System}
    (step : s.step (.collect id) = some after) : after.Coherent := by
  dsimp only [System.step] at step
  split at step
  · cases step
  · rename_i answer rest ready
    split at step
    · rename_i waiting
      cases step
      have waits : (s.view id).entry.submitter.waits = true := by
        change (s.entries id).submitter.waits = true
        rcases waiting with waiting | blocked
        · rw [waiting]
          rfl
        · rw [blocked]
          rfl
      exact coherent.of_modify rfl ((coherent.sound id).collect waits ready)
    · cases step

theorem enqueue (coherent : s.Coherent) {id : Nat} {after : System}
    (step : s.step (.enqueue id) = some after) : after.Coherent := by
  dsimp only [System.step] at step
  split at step
  · rename_i created
    cases step
    obtain ⟨away, cell, ⟨results, executions, starts⟩, cancels⟩ :=
      (coherent.sound id).of_created created
    obtain ⟨out, idle⟩ := away_iff.mp away
    refine coherent.of_move id (fun other ne => .of_eq ?_) ?_ ?_ fun held now => ?_
    · rw [modify_view_ne _ _ ne]
      refine view_congr rfl rfl ?_ rfl
      unfold System.place
      simp [ne]
    · rw [modify_view _ _ _ rfl]
      refine .queued (.inl ?_) cell rfl ⟨results, executions, starts⟩ cancels
      exact place_of_mem (List.mem_append_right _ (List.mem_singleton.mpr rfl))
    · exact List.nodup_append.mpr ⟨coherent.nodup, List.nodup_singleton _, by
        intro x member y is
        rw [List.mem_singleton.mp is]
        exact fun equal => out (equal ▸ member)⟩
    · intro member
      obtain member | same := List.mem_append.mp member
      · exact coherent.held held now member
      · rw [List.mem_singleton.mp same] at now
        exact control_place_of_current now idle
  · cases step

/-- Every step of every thread, as long as no submitter withdraws the command of another. -/
theorem step (coherent : s.Coherent) {a : Action} {after : System} (live : s.LiveStep a after) :
    after.Coherent := by
  obtain ⟨step, own⟩ := live
  cases a with
  | create id address request => exact coherent.create step
  | enqueue id => exact coherent.enqueue step
  | raiseQuit =>
    cases step
    exact coherent.of_views (fun _ => rfl) rfl fun _ => id
  | clearRunning =>
    cases step
    exact coherent.of_views (fun _ => rfl) rfl fun _ => id
  | setPaused =>
    cases step
    exact coherent.of_views (fun _ => rfl) rfl fun _ => id
  | timeOut id => exact coherent.timeOut step
  | load id => exact coherent.load step
  | cancel id => exact coherent.cancel step own
  | collect id => exact coherent.collect step
  | emulate stays => exact coherent.emulate (emulates step)

end Coherent

/-! ### The order of execution -/

/-- The executions still to come of the command that the emulation thread holds. -/
def upcoming : Control → List Nat
  | .taken id _ | .examined id _ => [id]
  | .performing (some id) ops _ => List.replicate (ops.count .execute) id
  | .at _ | .draining _ | .performing none _ _ => []

/-- Commands are executed in the order of the queue, and enqueued once. -/
structure InOrder (s : System) : Prop where
  /-- Executions past and to come follow the order of the history. -/
  order : (s.executed ++ (upcoming s.control ++ s.queue)).Sublist s.history
  /-- No command is enqueued twice. -/
  nodup : s.history.Nodup
  /-- A command in the history was enqueued by its submitter. -/
  enqueued : ∀ id ∈ s.history,
    (s.entries id).submitter ≠ .absent ∧ (s.entries id).submitter ≠ .created

theorem exchange_keeps (s : System) (address : Nat) (desired : CommandState) :
    (s.exchange address desired).queue = s.queue ∧
      (s.exchange address desired).history = s.history ∧
      (s.exchange address desired).executed = s.executed ∧
      ∀ id, ((s.exchange address desired).entries id).submitter = (s.entries id).submitter := by
  unfold exchange
  dsimp only
  split
  · exact ⟨rfl, rfl, rfl, fun _ => rfl⟩
  · rename_i owner _
    refine ⟨rfl, rfl, rfl, fun id => ?_⟩
    unfold modify store
    dsimp only
    by_cases here : id = owner
    · rw [here, Function.update_self]
      split <;> rfl
    · rw [Function.update_of_ne here]

theorem modify_submitter (s : System) (id : Nat) (change : Entry → Entry)
    (same : (change (s.entries id)).submitter = (s.entries id).submitter) (other : Nat) :
    ((s.modify id change).entries other).submitter = (s.entries other).submitter := by
  unfold modify
  dsimp only
  by_cases here : other = id
  · rw [here, Function.update_self, same]
  · rw [Function.update_of_ne here]

theorem perform_submitter (s : System) (current : Option Nat) (op : Op) (id : Nat) :
    ((s.perform current op).entries id).submitter = (s.entries id).submitter := by
  cases op with
  | setRunning | setPaused | raiseQuit | fulfilPending => rfl
  | fulfilPendingIfPaused =>
    unfold perform
    dsimp only
    split
    · rfl
    · rfl
  | complete | pushPending => cases current <;> rfl
  | execute | answer | fulfilPause | fulfilTrace =>
    cases current with
    | none => rfl
    | some held =>
      unfold perform performOn
      exact modify_submitter _ held _ (by rfl) id

theorem perform_history (s : System) (current : Option Nat) (op : Op) :
    (s.perform current op).history = s.history := by
  cases op with
  | fulfilPendingIfPaused =>
    unfold perform
    dsimp only
    split
    · rfl
    · rfl
  | _ => cases current <;> rfl

/-- An operation turns an execution to come into a past one. -/
theorem perform_executed (s : System) (current : Option Nat) (op : Op) (ops : List Op)
    (next : Point) :
    (s.perform current op).executed ++ upcoming (.performing current ops next) =
      s.executed ++ upcoming (.performing current (op :: ops) next) := by
  have others : op ≠ .execute → (s.perform current op).executed = s.executed := by
    intro other
    cases op with
    | execute => exact absurd rfl other
    | fulfilPendingIfPaused =>
      unfold perform
      dsimp only
      split
      · rfl
      · rfl
    | _ => cases current <;> rfl
  cases current with
  | none =>
    cases op with
    | execute => rfl
    | _ => rw [others nofun]; rfl
  | some id =>
    by_cases execute : op = .execute
    · rw [execute]
      change (s.executed ++ [id]) ++ List.replicate (ops.count .execute) id =
        s.executed ++ List.replicate ((Op.execute :: ops).count .execute) id
      rw [List.count_cons_self, List.replicate_succ, List.append_assoc]
      rfl
    · change _ = s.executed ++ List.replicate ((op :: ops).count .execute) id
      rw [others execute, count_execute_cons execute]
      rfl

namespace InOrder

variable {s after : System}

/-- Nothing is enqueued, and no execution comes out of turn. -/
theorem of_sublist (inOrder : s.InOrder)
    (sub : (after.executed ++ (upcoming after.control ++ after.queue)).Sublist
      (s.executed ++ (upcoming s.control ++ s.queue)))
    (history : after.history = s.history)
    (submitter : ∀ id, (after.entries id).submitter = (s.entries id).submitter) :
    after.InOrder where
  order := history ▸ sub.trans inOrder.order
  nodup := history ▸ inOrder.nodup
  enqueued := fun id member => by
    rw [submitter id]
    exact inOrder.enqueued id (history ▸ member)

/-- A step of the emulation thread. -/
theorem emulate (inOrder : s.InOrder) (step : s.Emulates after) : after.InOrder := by
  cases step with
  | goes here => exact inOrder.of_sublist (by rw [here]; exact .refl _) rfl fun _ => rfl
  | leaves here => exact inOrder.of_sublist (by rw [here]; exact .refl _) rfl fun _ => rfl
  | closes here => exact inOrder.of_sublist (by rw [here]; exact .refl _) rfl fun _ => rfl
  | ends here => exact inOrder.of_sublist (by rw [here]; exact .refl _) rfl fun _ => rfl
  | releases here => exact inOrder.of_sublist (by rw [here]; exact .refl _) rfl fun _ => rfl
  | dequeues here queue taken =>
    refine inOrder.of_sublist ?_ rfl fun _ => rfl
    rw [here, queue]
    obtain ⟨inFrame, rfl⟩ | rfl := taken
    · exact .refl _
    · exact (List.sublist_cons_self ..).append_left s.executed
  | starts here found =>
    obtain ⟨queue, history, executed, submitter⟩ :=
      s.exchange_keeps (s.entries _).address .executing
    refine inOrder.of_sublist ?_ history submitter
    dsimp only
    rw [here, queue, executed]
    exact .refl _
  | @drains id here found =>
    obtain ⟨queue, history, executed, submitter⟩ :=
      s.exchange_keeps (s.entries id).address .cancelled
    refine inOrder.of_sublist ?_ history submitter
    have idle := (drainProgram_spec (s.entries id).request).2.1
    change ((s.exchange (s.entries id).address .cancelled).executed ++
      (List.replicate ((drainProgram (s.entries id).request).count .execute) id ++
        (s.exchange (s.entries id).address .cancelled).queue)).Sublist _
    rw [idle, here, queue, executed]
    exact .refl _
  | loses here =>
    refine inOrder.of_sublist ?_ rfl fun _ => rfl
    obtain ⟨⟨inFrame, taken⟩, rfl⟩ | ⟨draining, rfl⟩ := here
    · rw [taken]
      exact (List.sublist_cons_self ..).append_left s.executed
    · rw [draining]
      exact .refl _
  | refuses here =>
    refine inOrder.of_sublist ?_ rfl fun _ => rfl
    rw [here]
    exact (List.sublist_cons_self ..).append_left s.executed
  | @runs id inFrame next here =>
    refine inOrder.of_sublist ?_ rfl fun _ => rfl
    have work := (program_spec (s.entries id).request).2.1
    change (s.executed ++
      (List.replicate ((program (s.entries id).request).count .execute) id ++ s.queue)).Sublist _
    rw [work, here]
    exact .refl _
  | @performs current op ops next here =>
    refine inOrder.of_sublist ?_ (s.perform_history current op) (s.perform_submitter current op)
    dsimp only
    rw [← List.append_assoc, s.perform_executed current op ops next, (s.perform_keeps current op).1,
      here, List.append_assoc]

/-- A client that does not enqueue. -/
theorem of_client (inOrder : s.InOrder) {entries : Nat → Entry} {memory : Nat → Cell}
    {running paused quitRequested : Bool}
    (enqueued : ∀ id, (s.entries id).submitter ≠ .absent ∧ (s.entries id).submitter ≠ .created →
      (entries id).submitter ≠ .absent ∧ (entries id).submitter ≠ .created) :
    ({ s with entries, memory, running, paused, quitRequested } : System).InOrder where
  order := inOrder.order
  nodup := inOrder.nodup
  enqueued := fun id member => enqueued id (inOrder.enqueued id member)

/-- A submitter goes on. -/
theorem of_modify (inOrder : s.InOrder) {id : Nat} {change : Entry → Entry}
    (enqueued : (change (s.entries id)).submitter ≠ .absent ∧
      (change (s.entries id)).submitter ≠ .created) : (s.modify id change).InOrder := by
  refine inOrder.of_client fun other known => ?_
  by_cases here : other = id
  · rw [here, Function.update_self]
    exact enqueued
  · rw [Function.update_of_ne here]
    exact known

/-- Every step of every thread. -/
theorem step (inOrder : s.InOrder) {a : Action} (step : s.step a = some after) :
    after.InOrder := by
  cases a with
  | create id address request =>
    dsimp only [System.step] at step
    split at step
    · rename_i allowed
      cases step
      refine inOrder.of_client fun other known => ?_
      have ne : other ≠ id := fun same => known.1 (same ▸ allowed.1)
      rw [Function.update_of_ne ne]
      exact known
    · cases step
  | enqueue id =>
    dsimp only [System.step] at step
    split at step
    · rename_i created
      cases step
      have fresh : id ∉ s.history := fun member => (inOrder.enqueued id member).2 created
      refine ⟨?_, ?_, fun other member => ?_⟩
      · change (s.executed ++ (upcoming s.control ++ (s.queue ++ [id]))).Sublist (s.history ++ [id])
        rw [← List.append_assoc (upcoming s.control), ← List.append_assoc s.executed]
        exact inOrder.order.append (.refl _)
      · exact List.nodup_append.mpr ⟨inOrder.nodup, List.nodup_singleton _, by
          intro x member y is
          rw [List.mem_singleton.mp is]
          exact fun equal => fresh (equal ▸ member)⟩
      · by_cases here : other = id
        · change ((Function.update s.entries id _) other).submitter ≠ _ ∧
            ((Function.update s.entries id _) other).submitter ≠ _
          rw [here, Function.update_self]
          exact ⟨nofun, nofun⟩
        · change ((Function.update s.entries id _) other).submitter ≠ _ ∧
            ((Function.update s.entries id _) other).submitter ≠ _
          rw [Function.update_of_ne here]
          obtain member | same := List.mem_append.mp member
          · exact inOrder.enqueued other member
          · exact absurd (List.mem_singleton.mp same) here
    · cases step
  | raiseQuit =>
    cases step
    exact inOrder.of_client fun _ => id
  | clearRunning =>
    cases step
    exact inOrder.of_client fun _ => id
  | setPaused =>
    cases step
    exact inOrder.of_client fun _ => id
  | timeOut id =>
    dsimp only [System.step] at step
    split at step
    · cases step
      exact inOrder.of_modify ⟨nofun, nofun⟩
    · cases step
  | load id =>
    dsimp only [System.step] at step
    split at step
    · cases step
      refine inOrder.of_modify ?_
      dsimp only
      split <;> exact ⟨nofun, nofun⟩
    · cases step
  | cancel id =>
    dsimp only [System.step] at step
    split at step
    · split at step
      · cases step
        obtain ⟨queue, history, executed, submitter⟩ :=
          s.exchange_keeps (s.entries id).address .cancelled
        have control := (Coherent.exchange_machinery s (s.entries id).address .cancelled).2
        have exchanged : (s.exchange (s.entries id).address .cancelled).InOrder :=
          inOrder.of_sublist (by rw [queue, executed, control]) history submitter
        exact exchanged.of_modify ⟨nofun, nofun⟩
      · cases step
        exact inOrder.of_modify ⟨nofun, nofun⟩
    · cases step
  | collect id =>
    dsimp only [System.step] at step
    split at step
    · cases step
    · split at step
      · cases step
        exact inOrder.of_modify ⟨nofun, nofun⟩
      · cases step
  | emulate stays => exact inOrder.emulate (emulates step)

end InOrder

theorem init_coherent (running : Bool) : (init running).Coherent where
  nodup := List.nodup_nil
  held := fun _ => nofun
  sound := fun _ => .absent rfl rfl rfl ⟨rfl, rfl, rfl⟩ rfl

theorem init_inOrder (running : Bool) : (init running).InOrder where
  order := .refl _
  nodup := List.nodup_nil
  enqueued := fun _ => nofun

/-- The steps of a list, one after another. -/
def play : List Action → System → Option System
  | [], s => some s
  | a :: actions, s => (s.step a).bind (play actions)

/-- In a run in which no submitter withdraws the command of another, no command makes more than
one transition from `Queued`; a submitter that gets `Timeout` withdrew a command that is never
executed; another gets the one answer of its command, which was executed once or not at all; and
commands are executed in the order in which they were enqueued. -/
theorem commands_settled (running : Bool) {actions : List Action} {s : System}
    (run : Transition.Run LiveStep (init running) actions s) :
    (∀ id, (s.entries id).starts + (s.entries id).cancels ≤ 1 ∧
      ((s.entries id).submitter = .returned none → (s.entries id).executions = 0) ∧
      ∀ answer, (s.entries id).submitter = .returned (some answer) →
        (s.entries id).results = [answer] ∧ answer ≠ .cancelled ∧
          (s.entries id).executions = if answer = .executed then 1 else 0) ∧
      s.history.Nodup ∧ s.executed.Sublist s.history := by
  have coherent : s.Coherent :=
    run.invariant (fun _ _ _ coherent live => coherent.step live) (init_coherent running)
  have inOrder : s.InOrder :=
    run.invariant (fun _ _ _ inOrder live => inOrder.step live.1) (init_inOrder running)
  refine ⟨fun id => (coherent.sound id).settled, inOrder.nodup, ?_⟩
  exact (List.sublist_append_left _ _).trans inOrder.order

/-- The step is a `compare_exchange` of a submitter. -/
def withdraws : Action → Bool
  | .cancel _ => true
  | _ => false

/-- A list of steps without a withdrawal is a run. -/
theorem run_of_play {actions : List Action} :
    ∀ {s after : System}, s.play actions = some after → (∀ a ∈ actions, withdraws a = false) →
      Transition.Run LiveStep s actions after := by
  induction actions with
  | nil =>
    intro s after played _
    cases played
    exact .nil s
  | cons a actions inductionHypothesis =>
    intro s after played calm
    obtain ⟨middle, step, rest⟩ := Option.bind_eq_some_iff.mp played
    have own : s.OwnCommand a := by
      cases a with
      | cancel id => exact absurd (calm _ List.mem_cons_self) nofun
      | _ => trivial
    exact .cons ⟨step, own⟩
      (inductionHypothesis rest fun a member => calm a (List.mem_cons_of_mem _ member))

/-- A reset is submitted, taken, executed and destroyed. -/
def resetRun : List Action :=
  [.create 0 0 (.submitAndWait .reset), .enqueue 0, .timeOut 0] ++
    List.replicate 12 (.emulate true)

theorem commands_settled_reset :
    ∃ s, (init false).play (resetRun ++ [.load 0, .emulate true]) = some s ∧ s.executed = [0] ∧
      (s.entries 0).starts + (s.entries 0).cancels ≤ 1 := by
  have played : ((init false).play (resetRun ++ [.load 0, .emulate true])).map (·.executed) =
      some [0] := by
    decide
  obtain ⟨s, final, executed⟩ := Option.map_eq_some_iff.mp played
  have run := run_of_play final (by decide)
  exact ⟨s, final, executed, ((commands_settled false run).1 0).1⟩

/-- The submitter of a reset times out and is held up; the reset is executed and destroyed, another
command is made at its address, and the submitter withdraws that one and returns `Timeout`. -/
theorem timeout_of_executed :
    ∃ s, (init false).play
        (resetRun ++ [.create 1 0 (.submitAndWait .reset), .load 0, .cancel 0]) = some s ∧
      (s.entries 0).submitter = .returned none ∧ (s.entries 0).executions = 1 ∧
      (s.entries 1).cancels = 1 := by
  have played : ((init false).play
      (resetRun ++ [.create 1 0 (.submitAndWait .reset), .load 0, .cancel 0])).map
        (fun s => ((s.entries 0).submitter, (s.entries 0).executions, (s.entries 1).cancels)) =
      some (.returned none, 1, 1) := by
    decide
  obtain ⟨s, final, shown⟩ := Option.map_eq_some_iff.mp played
  rw [Prod.mk.injEq, Prod.mk.injEq] at shown
  exact ⟨s, final, shown⟩

end System

end VectorDebugger.Commands

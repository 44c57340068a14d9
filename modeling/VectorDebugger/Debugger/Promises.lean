import VectorDebugger.Debugger.CommandRuns

/-!
# Promises

A command may carry, besides its result, the promise of a pause or of a trace. Executing it leads
to each promise being fulfilled once, and the final drain pays for pauses. A refusal pays for
neither, and the drain does not pay for traces; with these excluded, nobody is left waiting when
`runUntilPause` returns.
-/

namespace VectorDebugger.Commands

/-- The promises of pauses that operations fulfil or put down as pending. -/
def pausesOf (ops : List Op) : Nat := ops.count .fulfilPause + ops.count .pushPending

/-- The promises of traces that operations fulfil. -/
def tracesOf (ops : List Op) : Nat := ops.count .fulfilTrace

/-- Nothing has been done yet that could pay for a promise. -/
def View.early (view : View) : Bool :=
  match view.place with
  | .performing _ => false
  | .away => view.entry.submitter = .absent ∨ view.entry.submitter = .created
  | _ => true

/-- The operations to go. -/
def Place.ops : Place → List Op
  | .performing ops => ops
  | _ => []

/-- The promises fulfilled, pending and still to be fulfilled are those that the command carries;
none is until the command is performed. -/
structure View.Paid (view : View) : Prop where
  /-- Of pauses. -/
  pauses : view.entry.pauses + view.held + pausesOf view.place.ops =
    if view.early then 0 else view.entry.request.carriesPause.toNat
  /-- Of traces. -/
  traces : view.entry.traces + tracesOf view.place.ops =
    if view.early then 0 else view.entry.request.carriesTrace.toNat
  /-- Only `submitAndWait` gives up. -/
  timed : view.entry.submitter = .timedOut ∨ view.entry.submitter = .cancelling ∨
    view.entry.submitter = .returned none → view.entry.request.timesOut = true

theorem carries_of_timesOut {request : Request} (timesOut : request.timesOut = true) :
    request.carriesPause = false ∧ request.carriesTrace = false := by
  cases request with
  | submitAndWait => exact ⟨rfl, rfl⟩
  | _ => cases timesOut

theorem program_pays (request : Request) :
    pausesOf (program request) = request.carriesPause.toNat ∧
      tracesOf (program request) = request.carriesTrace.toNat := by
  cases request with
  | submitAndWait command => cases command <;> exact ⟨rfl, rfl⟩
  | _ => exact ⟨rfl, rfl⟩

theorem drainProgram_pays (request : Request) :
    pausesOf (drainProgram request) = request.carriesPause.toNat ∧
      tracesOf (drainProgram request) = 0 := by
  cases request <;> exact ⟨rfl, rfl⟩

theorem pausesOf_cons (op : Op) (ops : List Op) :
    pausesOf (op :: ops) = pausesOf [op] + pausesOf ops := by
  unfold pausesOf
  rw [List.count_cons, List.count_cons, List.count_singleton, List.count_singleton]
  omega

theorem tracesOf_cons (op : Op) (ops : List Op) :
    tracesOf (op :: ops) = tracesOf [op] + tracesOf ops := by
  unfold tracesOf
  rw [List.count_cons, List.count_singleton]
  omega

/-- Two views that agree on all that `Paid` speaks of. -/
structure View.PaidAlike (view after : View) : Prop where
  /-- Same request. -/
  request : after.entry.request = view.entry.request
  /-- Same submitter. -/
  submitter : after.entry.submitter = view.entry.submitter
  /-- Same place. -/
  place : after.place = view.place
  /-- As many pauses fulfilled or pending. -/
  pauses : after.entry.pauses + after.held = view.entry.pauses + view.held
  /-- As many traces fulfilled. -/
  traces : after.entry.traces = view.entry.traces

namespace View

theorem PaidAlike.of_eq {view after : View} (same : after = view) : view.PaidAlike after := by
  subst same
  exact ⟨rfl, rfl, rfl, rfl, rfl⟩

theorem PaidAlike.trans {first second third : View} (front : first.PaidAlike second)
    (back : second.PaidAlike third) : first.PaidAlike third :=
  ⟨back.request.trans front.request, back.submitter.trans front.submitter,
    back.place.trans front.place, back.pauses.trans front.pauses, back.traces.trans front.traces⟩

theorem Paid.of_alike {view after : View} (paid : view.Paid) (alike : view.PaidAlike after) :
    after.Paid := by
  have early : after.early = view.early := by
    unfold early
    rw [alike.place, alike.submitter]
  refine ⟨?_, ?_, ?_⟩
  · rw [alike.pauses, alike.place, alike.request, early]
    exact paid.pauses
  · rw [alike.traces, alike.place, alike.request, early]
    exact paid.traces
  · rw [alike.submitter, alike.request]
    exact paid.timed

/-- A command that is held goes from an early place to one where operations pay for it. -/
theorem Paid.performing {view after : View} (paid : view.Paid) (early : view.early = true)
    (idle : view.place.ops = []) (request : after.entry.request = view.entry.request)
    (submitter : after.entry.submitter = view.entry.submitter)
    (pauses : after.entry.pauses + after.held = view.entry.pauses + view.held)
    (traces : after.entry.traces = view.entry.traces) {ops : List Op}
    (place : after.place = .performing ops)
    (paysPauses : pausesOf ops = view.entry.request.carriesPause.toNat)
    (paysTraces : tracesOf ops = view.entry.request.carriesTrace.toNat) : after.Paid := by
  have late : after.early = false := by
    unfold View.early
    rw [place]
  have nothing := paid.pauses
  have none := paid.traces
  rw [early, idle, if_pos rfl] at nothing none
  refine ⟨?_, ?_, ?_⟩
  · rw [late, if_neg Bool.false_ne_true, request, ← paysPauses, place]
    change _ + _ + pausesOf ops = pausesOf ops
    omega
  · rw [late, if_neg Bool.false_ne_true, request, ← paysTraces, place]
    change _ + tracesOf ops = tracesOf ops
    omega
  · rw [submitter, request]
    exact paid.timed

/-- A command that is early stays so. -/
theorem Paid.early {view after : View} (paid : view.Paid) (was : view.early = true)
    (idle : view.place.ops = []) (still : after.early = true) (idle' : after.place.ops = [])
    (pauses : after.entry.pauses + after.held = view.entry.pauses + view.held)
    (traces : after.entry.traces = view.entry.traces)
    (timed : after.entry.submitter = .timedOut ∨ after.entry.submitter = .cancelling ∨
      after.entry.submitter = .returned none → after.entry.request.timesOut = true) :
    after.Paid := by
  have nothing := paid.pauses
  have none := paid.traces
  rw [was, idle, if_pos rfl] at nothing none
  refine ⟨?_, ?_, timed⟩
  · rw [still, idle', if_pos rfl, pauses]
    exact nothing
  · rw [still, idle', if_pos rfl, traces]
    exact none

end View

namespace System

/-- No refusal and no drain leaves a promise behind. -/
def paysAll (s : System) : Action → Bool
  | .emulate _ =>
    match s.control with
    | .examined id _ =>
      !s.quitRequested ||
        !(s.entries id).request.carriesPause && !(s.entries id).request.carriesTrace
    | .draining id =>
      (s.memory (s.entries id).address).state ≠ .queued || !(s.entries id).request.carriesTrace
    | _ => true
  | _ => true

/-- A step that withdraws no other submitter's command and leaves no promise behind. -/
def PayingStep (s : System) (a : Action) (after : System) : Prop :=
  s.LiveStep a after ∧ s.paysAll a = true

/-- The promises of a command before and after an operation. -/
def Pays (s after : System) (id pauses traces : Nat) : Prop :=
  (after.entries id).request = (s.entries id).request ∧
    (after.entries id).pauses + after.pending.count id =
      (s.entries id).pauses + s.pending.count id + pauses ∧
    (after.entries id).traces = (s.entries id).traces + traces

theorem fulfillPausePromises_pays (s : System) (id : Nat) :
    s.Pays s.fulfillPausePromises id 0 0 := ⟨rfl, rfl, rfl⟩

/-- What an operation does to the promises of a command that it is not about. -/
theorem perform_pays_ne (s : System) {current : Option Nat} (op : Op) {id : Nat}
    (other : current ≠ some id) : s.Pays (s.perform current op) id 0 0 := by
  have modified : ∀ {base : System} {held : Nat} {change : Entry → Entry}, held ≠ id →
        base.entries = s.entries → base.pending = s.pending →
        s.Pays (base.modify held change) id 0 0 := by
    intro base held change ne entries pending
    unfold Pays modify
    dsimp only
    rw [Function.update_of_ne ne.symm, entries, pending]
    exact ⟨rfl, rfl, rfl⟩
  cases op with
  | setRunning | setPaused | raiseQuit => exact ⟨rfl, rfl, rfl⟩
  | fulfilPending => exact s.fulfillPausePromises_pays id
  | fulfilPendingIfPaused =>
    unfold perform
    dsimp only
    split
    · exact s.fulfillPausePromises_pays id
    · exact ⟨rfl, rfl, rfl⟩
  | complete => cases current <;> exact ⟨rfl, rfl, rfl⟩
  | pushPending =>
    cases current with
    | none => exact ⟨rfl, rfl, rfl⟩
    | some held =>
      have ne : held ≠ id := fun same => other (congrArg some same)
      refine ⟨rfl, ?_, rfl⟩
      change _ + (s.pending ++ [held]).count id = _
      rw [List.count_append, List.count_singleton, beq_false_of_ne ne]
      rfl
  | execute | answer | fulfilPause | fulfilTrace =>
    cases current with
    | none => exact ⟨rfl, rfl, rfl⟩
    | some held =>
      unfold perform performOn
      exact modified (fun same => other (congrArg some same)) rfl rfl

/-- What an operation does to the promises of the command it is about. -/
theorem perform_pays (s : System) (id : Nat) (op : Op) :
    s.Pays (s.perform (some id) op) id (pausesOf [op]) (tracesOf [op]) := by
  cases op with
  | setRunning | setPaused | raiseQuit | complete => exact ⟨rfl, rfl, rfl⟩
  | fulfilPending => exact s.fulfillPausePromises_pays id
  | fulfilPendingIfPaused =>
    unfold perform
    dsimp only
    split
    · exact s.fulfillPausePromises_pays id
    · exact ⟨rfl, rfl, rfl⟩
  | pushPending =>
    refine ⟨rfl, ?_, rfl⟩
    change _ + (s.pending ++ [id]).count id = _
    rw [List.count_append, List.count_singleton_self, ← Nat.add_assoc]
    rfl
  | execute | answer | fulfilPause | fulfilTrace =>
    unfold Pays perform performOn modify
    dsimp only
    rw [Function.update_self]
    refine ⟨rfl, ?_, rfl⟩
    simp [pausesOf]
    try omega

/-- Every command is paid for. -/
def AllPaid (s : System) : Prop := ∀ id, (s.view id).Paid

theorem exchange_promises (s : System) (address : Nat) (desired : CommandState) :
    (s.exchange address desired).pending = s.pending ∧
      ∀ id, ((s.exchange address desired).entries id).request = (s.entries id).request ∧
        ((s.exchange address desired).entries id).pauses = (s.entries id).pauses ∧
        ((s.exchange address desired).entries id).traces = (s.entries id).traces := by
  unfold exchange
  dsimp only
  split
  · exact ⟨rfl, fun _ => ⟨rfl, rfl, rfl⟩⟩
  · rename_i owner _
    refine ⟨rfl, fun id => ?_⟩
    unfold modify store
    dsimp only
    by_cases here : id = owner
    · rw [here, Function.update_self]
      split <;> exact ⟨rfl, rfl, rfl⟩
    · rw [Function.update_of_ne here]
      exact ⟨rfl, rfl, rfl⟩

namespace AllPaid

variable {s after : System}

/-- One command is moved. -/
theorem of_move (paid : s.AllPaid) (id : Nat)
    (others : ∀ other, other ≠ id → (s.view other).PaidAlike (after.view other))
    (self : (after.view id).Paid) : after.AllPaid := by
  intro other
  by_cases same : other = id
  · rw [same]
    exact self
  · exact (paid other).of_alike (others other same)

/-- A command that is taken or examined is early, with no operations. -/
theorem early_of_place {view : View} (place : view.place = .taken ∨ view.place = .examined ∨
    view.place = .queue) : view.early = true ∧ view.place.ops = [] := by
  unfold View.early
  rcases place with place | place | place <;> rw [place] <;> exact ⟨rfl, rfl⟩

/-- The held command goes to the operations that pay for it. -/
theorem perform_held (paid : s.AllPaid) {id : Nat} {ops : List Op} {next : Point}
    (coherent : s.Coherent) (current : s.control.current = some id)
    (place : s.control.place id = .taken ∨ s.control.place id = .examined)
    (paysPauses : pausesOf ops = (s.entries id).request.carriesPause.toNat)
    (paysTraces : tracesOf ops = (s.entries id).request.carriesTrace.toNat) :
    ({ s with control := .performing (some id) ops next } : System).AllPaid := by
  have out := coherent.held id current
  have here : (s.view id).place = .taken ∨ (s.view id).place = .examined ∨
      (s.view id).place = .queue := by
    rw [coherent.place_current current]
    exact place.imp_right .inl
  obtain ⟨early, idle⟩ := early_of_place here
  refine paid.of_move id (fun other ne => .of_eq (steer_view_ne (.inl current) (.inl rfl) ne)) ?_
  rw [steer_view out]
  exact (paid id).performing early idle rfl rfl rfl rfl (if_pos rfl) paysPauses paysTraces

/-- One operation. -/
theorem perform (paid : s.AllPaid) (coherent : s.Coherent) {current : Option Nat} {op : Op}
    {ops : List Op} {next : Point} (control : s.control = .performing current (op :: ops) next) :
    ({ s.perform current op with control := .performing current ops next } : System).AllPaid := by
  obtain ⟨queue, same⟩ := s.perform_keeps current op
  intro id
  by_cases held : current = some id
  · have is : s.control.current = some id := by rw [control]; exact held
    have out := coherent.held id is
    have place : (s.view id).place = .performing (op :: ops) := by
      rw [coherent.place_current is, control]
      exact if_pos held
    have now : ({ s.perform current op with
        control := .performing current ops next } : System).place id = .performing ops := by
      rw [place_of_not_mem (by rw [queue]; exact out)]
      exact if_pos held
    have submitter := s.perform_submitter current op id
    subst held
    obtain ⟨request, pauses, traces⟩ := s.perform_pays id op
    obtain ⟨paidPauses, paidTraces, timed⟩ := paid id
    have late : (s.view id).early = false := by
      unfold View.early
      rw [place]
    rw [late, place, if_neg Bool.false_ne_true] at paidPauses paidTraces
    change (s.entries id).pauses + s.pending.count id + pausesOf (op :: ops) = _ at paidPauses
    change (s.entries id).traces + tracesOf (op :: ops) = _ at paidTraces
    have lateNow : (({ s.perform (some id) op with
        control := .performing (some id) ops next } : System).view id).early = false := by
      unfold View.early view
      rw [now]
    refine ⟨?_, ?_, ?_⟩
    · rw [lateNow, if_neg Bool.false_ne_true]
      change ((s.perform (some id) op).entries id).pauses +
        (s.perform (some id) op).pending.count id + pausesOf (System.place _ id).ops =
          ((s.perform (some id) op).entries id).request.carriesPause.toNat
      rw [pauses, request, now, Nat.add_assoc]
      exact (congrArg _ (pausesOf_cons op ops).symm).trans paidPauses
    · rw [lateNow, if_neg Bool.false_ne_true]
      change ((s.perform (some id) op).entries id).traces + tracesOf (System.place _ id).ops =
          ((s.perform (some id) op).entries id).request.carriesTrace.toNat
      rw [traces, request, now, Nat.add_assoc]
      exact (congrArg _ (tracesOf_cons op ops).symm).trans paidTraces
    · change ((s.perform (some id) op).entries id).submitter = _ ∨
        ((s.perform (some id) op).entries id).submitter = _ ∨
        ((s.perform (some id) op).entries id).submitter = _ →
        ((s.perform (some id) op).entries id).request.timesOut = true
      rw [submitter, request]
      exact timed
  · obtain ⟨request, pauses, traces⟩ := s.perform_pays_ne op held
    refine (paid id).of_alike
      ⟨request, s.perform_submitter current op id, ?_, pauses, traces⟩
    change System.place _ id = s.place id
    unfold System.place
    dsimp only
    rw [queue, control]
    unfold Control.place
    dsimp only
    rw [if_neg held, if_neg held]

/-- A command that is destroyed is paid for. -/
theorem release (paid : s.AllPaid) (coherent : s.Coherent) {id : Nat} {next : Point}
    (control : s.control = .performing (some id) [] next) :
    ({ s.release id with control := .at next } : System).AllPaid := by
  have current : s.control.current = some id := by rw [control]; rfl
  have out := coherent.held id current
  have place : (s.view id).place = .performing [] := by
    rw [coherent.place_current current, control]
    exact if_pos rfl
  obtain ⟨⟨state, cell, _⟩, settles⟩ := (coherent.sound id).of_performing place
  have owner := Coherent.owner_of_cell cell
  refine paid.of_move id (fun other ne => .of_eq ?_) ?_
  · rw [@steer_view_ne (s.release id) (.at next) id other (.inl current) (.inr rfl) ne]
    exact s.release_view_ne owner ne
  · rw [@steer_view (s.release id) id out, s.release_view id]
    obtain ⟨pauses, traces, timed⟩ := paid id
    have late : (s.view id).early = false := by
      unfold View.early
      rw [place]
    have lateNow : ({ s.view id with
        cell := none, place := (Control.at next).place id } : View).early = false := by
      unfold View.early
      exact decide_eq_false (not_or.mpr settles.enqueued)
    rw [late, place] at pauses traces
    refine ⟨?_, ?_, timed⟩
    · rw [lateNow]
      exact pauses
    · rw [lateNow]
      exact traces

/-- A step of the emulation thread that leaves no promise behind. -/
theorem emulate (paid : s.AllPaid) (coherent : s.Coherent) {stays : Bool}
    (pays : s.paysAll (.emulate stays) = true) (step : s.Emulates after) : after.AllPaid := by
  cases step with
  | goes here => exact fun id => by rw [idle_view (by rw [here]; rfl) rfl]; exact paid id
  | leaves here => exact fun id => by rw [idle_view (by rw [here]; rfl) rfl]; exact paid id
  | closes here => exact fun id => by rw [idle_view (by rw [here]; rfl) rfl]; exact paid id
  | ends here => exact fun id => by rw [idle_view (by rw [here]; rfl) rfl]; exact paid id
  | @dequeues point id rest control here queue taken =>
    have idle : s.control.current = none := by rw [here]; rfl
    have facts : control.current = some id ∧ control.place id = .taken := by
      obtain ⟨inFrame, rfl⟩ | rfl := taken
      · exact ⟨rfl, if_pos rfl⟩
      · exact ⟨rfl, if_pos rfl⟩
    obtain ⟨place, moved⟩ := coherent.dequeue_view queue facts.2
    obtain ⟨early, none⟩ := early_of_place (.inr (.inr place))
    refine paid.of_move id
      (fun other ne => .of_eq (Coherent.dequeue_view_ne queue idle facts.1 ne)) ?_
    rw [moved]
    exact (paid id).early early none rfl rfl rfl rfl (paid id).timed
  | @starts id inFrame here found =>
    have current : s.control.current = some id := by rw [here]; rfl
    have taken : s.control.place id = .taken := by rw [here]; exact if_pos rfl
    obtain ⟨others, self⟩ := @Coherent.win_view s coherent id .executing (.examined id inFrame)
      current taken found rfl
    obtain ⟨early, idle⟩ := early_of_place (.inl ((coherent.place_current current).trans taken))
    have examined : (Control.examined id inFrame).place id = .examined := if_pos rfl
    refine paid.of_move id (fun other ne => .of_eq (others other ne)) ?_
    rw [self, examined]
    exact (paid id).early early idle rfl rfl rfl rfl (paid id).timed
  | @drains id here found =>
    have current : s.control.current = some id := by rw [here]; rfl
    have taken : s.control.place id = .taken := by rw [here]; exact if_pos rfl
    obtain ⟨others, self⟩ := @Coherent.win_view s coherent id .cancelled
      (.performing (some id) (drainProgram (s.entries id).request) .drain) current taken found rfl
    obtain ⟨early, idle⟩ := early_of_place (.inl ((coherent.place_current current).trans taken))
    obtain ⟨pauses, traces⟩ := drainProgram_pays (s.entries id).request
    have untraced : (s.entries id).request.carriesTrace = false := by
      simpa [paysAll, here, found] using pays
    refine paid.of_move id (fun other ne => .of_eq (others other ne)) ?_
    rw [self]
    refine (paid id).performing early idle rfl rfl rfl rfl (if_pos rfl) pauses ?_
    rw [traces]
    change 0 = (s.entries id).request.carriesTrace.toNat
    rw [untraced]
    rfl
  | @loses id ops next here lost =>
    have held : s.control.current = some id ∧ s.control.place id = .taken ∧
        pausesOf ops = 0 ∧ tracesOf ops = 0 := by
      obtain ⟨⟨inFrame, taken⟩, rfl⟩ | ⟨draining, rfl⟩ := here
      · exact ⟨by rw [taken]; rfl, by rw [taken]; exact if_pos rfl, rfl, rfl⟩
      · exact ⟨by rw [draining]; rfl, by rw [draining]; exact if_pos rfl, rfl, rfl⟩
    obtain ⟨current, taken, noPause, noTrace⟩ := held
    have place := (coherent.place_current current).trans taken
    -- The submitter has withdrawn the command, so it carries no other promise.
    obtain ⟨_, ⟨cell, _⟩ | ⟨_, returned, _⟩⟩ := (coherent.sound id).of_taken place
    · exact absurd (cell_eq_some.mp cell).2 lost
    · obtain ⟨pause, trace⟩ := carries_of_timesOut ((paid id).timed (.inr (.inr returned)))
      change (s.entries id).request.carriesPause = false at pause
      change (s.entries id).request.carriesTrace = false at trace
      refine paid.perform_held coherent current (.inl taken) ?_ ?_
      · rw [noPause, pause]
        rfl
      · rw [noTrace, trace]
        rfl
  | @refuses id inFrame next here quit =>
    obtain ⟨pause, trace⟩ : (s.entries id).request.carriesPause = false ∧
        (s.entries id).request.carriesTrace = false := by
      simpa [paysAll, here, quit] using pays
    refine paid.perform_held coherent (by rw [here]; rfl) (.inr (by rw [here]; exact if_pos rfl))
      ?_ ?_
    · rw [pause]
      rfl
    · rw [trace]
      rfl
  | @runs id inFrame next here =>
    obtain ⟨pauses, traces⟩ := program_pays (s.entries id).request
    exact paid.perform_held coherent (by rw [here]; rfl) (.inr (by rw [here]; exact if_pos rfl))
      pauses traces
  | @performs current op ops next here => exact paid.perform coherent here
  | @releases id next here => exact paid.release coherent here

/-! ### The clients -/

/-- A `compare_exchange` touches no promise. -/
theorem exchange (paid : s.AllPaid) (address : Nat) (desired : CommandState) :
    (s.exchange address desired).AllPaid := by
  obtain ⟨pending, promises⟩ := s.exchange_promises address desired
  obtain ⟨queue, same⟩ := Coherent.exchange_machinery s address desired
  intro id
  obtain ⟨request, pauses, traces⟩ := promises id
  refine (paid id).of_alike ⟨request, (s.exchange_keeps address desired).2.2.2 id, ?_, ?_, traces⟩
  · change System.place _ id = s.place id
    unfold System.place
    rw [queue, same]
  · change ((s.exchange address desired).entries id).pauses +
      (s.exchange address desired).pending.count id = _
    rw [pauses, pending]
    rfl

/-- A submitter that has enqueued its command goes on. -/
theorem submitter (paid : s.AllPaid) {id : Nat} {submitter : Submitter}
    (was : (s.entries id).submitter ≠ .absent ∧ (s.entries id).submitter ≠ .created)
    (still : submitter ≠ .absent ∧ submitter ≠ .created)
    (timed : submitter = .timedOut ∨ submitter = .cancelling ∨ submitter = .returned none →
      (s.entries id).request.timesOut = true) :
    (s.modify id fun entry => { entry with submitter }).AllPaid := by
  refine paid.of_move id (fun other ne => .of_eq (s.modify_view_ne _ ne)) ?_
  rw [s.modify_view id _ rfl]
  obtain ⟨pauses, traces, _⟩ := paid id
  have early : ({ s.view id with
      entry := { s.entries id with submitter } } : View).early = (s.view id).early := by
    unfold View.early
    dsimp only
    split
    · rfl
    · exact (decide_eq_false (not_or.mpr still)).trans (decide_eq_false (not_or.mpr was)).symm
    · rfl
  refine ⟨?_, ?_, timed⟩
  · rw [early]
    exact pauses
  · rw [early]
    exact traces

theorem create (paid : s.AllPaid) (coherent : s.Coherent) {id address : Nat} {request : Request}
    (step : s.step (.create id address request) = some after) : after.AllPaid := by
  dsimp only [System.step] at step
  split at step
  · rename_i allowed
    cases step
    obtain ⟨away, _⟩ := (coherent.sound id).of_absent allowed.1
    have was : (s.view id).early = true := by
      unfold View.early
      rw [away]
      exact decide_eq_true (.inl allowed.1)
    have nothing := (paid id).pauses
    rw [was, away, if_pos rfl] at nothing
    have unheld : s.pending.count id = 0 := by
      change _ + s.pending.count id + 0 = 0 at nothing
      omega
    refine paid.of_move id (fun other ne => ?_) ?_
    · have same : Function.update s.entries id
          { Entry.vacant with request, address, submitter := .created } other = s.entries other :=
        Function.update_of_ne ne ..
      refine ⟨congrArg _ same, congrArg _ same, rfl, ?_, congrArg _ same⟩
      exact congrArg (fun entry : Entry => entry.pauses + s.pending.count other) same
    · have made : Function.update s.entries id
          { Entry.vacant with request, address, submitter := .created } id =
            { Entry.vacant with request, address, submitter := .created } :=
        Function.update_self ..
      have early : View.early (System.view { s with
          entries := Function.update s.entries id
            { Entry.vacant with request, address, submitter := .created }
          memory := Function.update s.memory address { state := .queued, owner := some id } }
          id) = true := by
        unfold View.early
        have still : System.place { s with
          entries := Function.update s.entries id
            { Entry.vacant with request, address, submitter := .created }
          memory := Function.update s.memory address { state := .queued, owner := some id } }
          id = .away := away
        unfold view
        rw [still]
        exact decide_eq_true (.inr (congrArg Entry.submitter made))
      refine ⟨?_, ?_, ?_⟩
      · rw [early, if_pos rfl]
        unfold view
        dsimp only
        rw [made, unheld]
        change 0 + 0 + pausesOf (s.place id).ops = 0
        rw [show s.place id = .away from away]
        rfl
      · rw [early, if_pos rfl]
        unfold view
        dsimp only
        rw [made]
        change 0 + tracesOf (s.place id).ops = 0
        rw [show s.place id = .away from away]
        rfl
      · unfold view
        dsimp only
        rw [made]
        exact nofun
  · cases step

theorem enqueue (paid : s.AllPaid) (coherent : s.Coherent) {id : Nat}
    (step : s.step (.enqueue id) = some after) : after.AllPaid := by
  dsimp only [System.step] at step
  split at step
  · rename_i created
    cases step
    obtain ⟨away, _⟩ := (coherent.sound id).of_created created
    have was : (s.view id).early = true := by
      unfold View.early
      rw [away]
      exact decide_eq_true (.inr created)
    have idle : (s.view id).place.ops = [] := by
      rw [away]
      rfl
    refine paid.of_move id (fun other ne => .of_eq ?_) ?_
    · rw [modify_view_ne _ _ ne]
      refine view_congr rfl rfl ?_ rfl
      unfold System.place
      simp [ne]
    · have queued : System.place { s with queue := s.queue ++ [id], history := s.history ++ [id] }
          id = .queue := place_of_mem (List.mem_append_right _ (List.mem_singleton.mpr rfl))
      rw [modify_view _ _ _ rfl]
      obtain ⟨early, none⟩ := @early_of_place { System.view { s with
        queue := s.queue ++ [id], history := s.history ++ [id] } id with
          entry := { s.entries id with submitter := .waiting } } (.inr (.inr queued))
      exact (paid id).early was idle early none rfl rfl nofun
  · cases step

/-- Every step that leaves no promise behind. -/
theorem step (paid : s.AllPaid) (coherent : s.Coherent) {a : Action}
    (live : s.PayingStep a after) : after.AllPaid := by
  obtain ⟨⟨step, own⟩, pays⟩ := live
  cases a with
  | create id address request => exact paid.create coherent step
  | enqueue id => exact paid.enqueue coherent step
  | raiseQuit =>
    cases step
    exact paid
  | clearRunning =>
    cases step
    exact paid
  | setPaused =>
    cases step
    exact paid
  | timeOut id =>
    dsimp only [System.step] at step
    split at step
    · rename_i allowed
      cases step
      exact paid.submitter (by rw [allowed.1]; exact ⟨nofun, nofun⟩) ⟨nofun, nofun⟩
        fun _ => allowed.2.1
    · cases step
  | load id =>
    dsimp only [System.step] at step
    split at step
    · rename_i timedOut
      cases step
      refine paid.submitter (by rw [timedOut]; exact ⟨nofun, nofun⟩) ?_
        fun _ => (paid id).timed (.inl timedOut)
      split <;> exact ⟨nofun, nofun⟩
    · cases step
  | cancel id =>
    dsimp only [System.step] at step
    split at step
    · rename_i cancelling
      have timed := (paid id).timed (.inr (.inl cancelling))
      split at step
      · cases step
        obtain ⟨_, _, _, submitter⟩ := s.exchange_keeps (s.entries id).address .cancelled
        have request := ((s.exchange_promises (s.entries id).address .cancelled).2 id).1
        refine (paid.exchange _ _).submitter ?_ ⟨nofun, nofun⟩ fun _ => ?_
        · rw [submitter id, cancelling]
          exact ⟨nofun, nofun⟩
        · rw [request]
          exact timed
      · cases step
        exact paid.submitter (by rw [cancelling]; exact ⟨nofun, nofun⟩) ⟨nofun, nofun⟩
          fun _ => timed
    · cases step
  | collect id =>
    dsimp only [System.step] at step
    split at step
    · cases step
    · split at step
      · rename_i waiting
        cases step
        refine paid.submitter ?_ ⟨nofun, nofun⟩ (by rintro (is | is | is) <;> cases is)
        rcases waiting with waiting | blocked
        · rw [waiting]
          exact ⟨nofun, nofun⟩
        · rw [blocked]
          exact ⟨nofun, nofun⟩
      · cases step
  | emulate stays => exact paid.emulate coherent pays (emulates step)

end AllPaid

/-! ### The end of `runUntilPause` -/

/-- The final drain has found the queue empty. -/
def closed : Control → Bool
  | .at .returned | .performing _ _ .returned => true
  | _ => false

/-- The last thing the emulation thread does is to fulfil the pending promises of pauses. -/
structure Closing (s : System) : Prop where
  /-- It holds no command then. -/
  idle : ∀ id ops, s.control ≠ .performing (some id) ops .returned
  /-- It is about to fulfil them, or has done so. -/
  paying : ∀ ops, s.control = .performing none ops .returned →
    .fulfilPending ∈ ops ∨ s.pending = []
  /-- None is pending any more. -/
  paid : s.control = .at .returned → s.pending = []

theorem Closing.of_open {s : System} (opened : closed s.control = false) : s.Closing where
  idle := fun _ _ control => by rw [control] at opened; cases opened
  paying := fun _ control => by rw [control] at opened; cases opened
  paid := fun control => by rw [control] at opened; cases opened

theorem perform_none_pending (s : System) (op : Op) :
    (s.perform none op).pending = s.pending ∨ (s.perform none op).pending = [] := by
  cases op with
  | fulfilPending => exact .inr rfl
  | fulfilPendingIfPaused =>
    unfold perform
    dsimp only
    split
    · exact .inr rfl
    · exact .inl rfl
  | _ => exact .inl rfl

theorem closed_of_going {next : Point} (going : next ≠ .returned) (current : Option Nat)
    (ops : List Op) :
    closed (.at next) = false ∧ closed (.performing current ops next) = false := by
  cases next with
  | returned => exact absurd rfl going
  | _ => exact ⟨rfl, rfl⟩

theorem Closing.emulate {s after : System} (closing : s.Closing) (step : s.Emulates after) :
    after.Closing := by
  cases step with
  | goes here going => exact .of_open (closed_of_going going none []).1
  | leaves here going => exact .of_open (closed_of_going going none _).2
  | closes here empty =>
    refine ⟨fun _ _ => nofun, fun ops control => .inl ?_, nofun⟩
    cases control
    exact List.mem_cons_of_mem _ List.mem_cons_self
  | dequeues here queue taken =>
    obtain ⟨inFrame, rfl⟩ | rfl := taken
    · exact .of_open rfl
    · exact .of_open rfl
  | starts => exact .of_open rfl
  | loses here lost going => exact .of_open (closed_of_going going _ _).2
  | refuses here quit going => exact .of_open (closed_of_going going _ _).2
  | runs here going => exact .of_open (closed_of_going going _ _).2
  | drains => exact .of_open rfl
  | @performs current op ops next here =>
    by_cases going : next = .returned
    · subst going
      cases current with
      | some id => exact absurd here (closing.idle id _)
      | none =>
        refine ⟨fun _ _ => nofun, fun ops' control => ?_, nofun⟩
        cases control
        obtain due | none := closing.paying _ here
        · obtain now | later := List.mem_cons.mp due
          · subst now
            exact .inr rfl
          · exact .inl later
        · obtain same | empty := s.perform_none_pending op
          · exact .inr (same.trans none)
          · exact .inr empty
    · exact .of_open (closed_of_going going _ _).2
  | @releases id next here =>
    by_cases going : next = .returned
    · subst going
      exact absurd here (closing.idle id _)
    · exact .of_open (closed_of_going going none []).1
  | @ends next here =>
    by_cases going : next = .returned
    · subst going
      refine ⟨fun _ _ => nofun, fun _ => nofun, fun _ => ?_⟩
      exact (closing.paying _ here).resolve_left List.not_mem_nil
    · exact .of_open (closed_of_going going none []).1

/-- A client touches neither the emulation thread nor the pending promises. -/
theorem client_keeps {s after : System} {a : Action} (step : s.step a = some after) :
    (∃ stays, a = .emulate stays) ∨ after.control = s.control ∧ after.pending = s.pending ∧
      (after.queue = s.queue ∧ after.history = s.history ∨
        ∃ id, after.queue = s.queue ++ [id] ∧ after.history = s.history ++ [id] ∧
          (s.entries id).submitter = .created) := by
  cases a with
  | emulate stays => exact .inl ⟨stays, rfl⟩
  | raiseQuit | clearRunning | setPaused =>
    cases step
    exact .inr ⟨rfl, rfl, .inl ⟨rfl, rfl⟩⟩
  | create id address request =>
    dsimp only [System.step] at step
    split at step
    · cases step
      exact .inr ⟨rfl, rfl, .inl ⟨rfl, rfl⟩⟩
    · cases step
  | enqueue id =>
    dsimp only [System.step] at step
    split at step
    · rename_i created
      cases step
      exact .inr ⟨rfl, rfl, .inr ⟨id, rfl, rfl, created⟩⟩
    · cases step
  | timeOut id =>
    dsimp only [System.step] at step
    split at step
    · cases step
      exact .inr ⟨rfl, rfl, .inl ⟨rfl, rfl⟩⟩
    · cases step
  | load id =>
    dsimp only [System.step] at step
    split at step
    · cases step
      exact .inr ⟨rfl, rfl, .inl ⟨rfl, rfl⟩⟩
    · cases step
  | cancel id =>
    dsimp only [System.step] at step
    split at step
    · split at step
      · cases step
        obtain ⟨queue, control⟩ :=
          Coherent.exchange_machinery s (s.entries id).address .cancelled
        exact .inr ⟨control, (s.exchange_promises _ _).1, .inl ⟨queue, (s.exchange_keeps _ _).2.1⟩⟩
      · cases step
        exact .inr ⟨rfl, rfl, .inl ⟨rfl, rfl⟩⟩
    · cases step
  | collect id =>
    dsimp only [System.step] at step
    split at step
    · cases step
    · split at step
      · cases step
        exact .inr ⟨rfl, rfl, .inl ⟨rfl, rfl⟩⟩
      · cases step

theorem Closing.step {s after : System} (closing : s.Closing) {a : Action}
    (step : s.step a = some after) : after.Closing := by
  obtain ⟨stays, rfl⟩ | ⟨control, pending, _⟩ := client_keeps step
  · exact closing.emulate (emulates step)
  · refine ⟨?_, ?_, ?_⟩
    · rw [control]
      exact closing.idle
    · rw [control, pending]
      exact closing.paying
    · rw [control, pending]
      exact closing.paid

/-- A command that was enqueued in time has left the queue once the drain is over. -/
structure InTime (s : System) (id : Nat) : Prop where
  /-- It was enqueued. -/
  enqueued : id ∈ s.history
  /-- The drain takes it out. -/
  served : closed s.control = true → id ∉ s.queue

theorem emulate_history {s after : System} (step : s.Emulates after) :
    after.history = s.history := by
  cases step with
  | starts => exact (s.exchange_keeps _ _).2.1
  | drains => exact (s.exchange_keeps _ _).2.1
  | performs => exact s.perform_history _ _
  | _ => rfl

theorem InTime.step {s after : System} {id : Nat} (inTime : s.InTime id) (inOrder : s.InOrder)
    {a : Action} (step : s.step a = some after) : after.InTime id := by
  obtain ⟨stays, rfl⟩ | ⟨control, _, ⟨queue, history⟩ | ⟨other, queue, history, created⟩⟩ :=
    client_keeps step
  · have emulated := emulates step
    refine ⟨emulate_history emulated ▸ inTime.enqueued, ?_⟩
    cases emulated with
    | goes here going => rw [(closed_of_going going none []).1]; exact nofun
    | leaves here going => rw [(closed_of_going going none _).2]; exact nofun
    | closes here empty => exact fun _ => empty ▸ List.not_mem_nil
    | dequeues here queue taken =>
      obtain ⟨inFrame, rfl⟩ | rfl := taken
      · exact nofun
      · exact nofun
    | starts => exact nofun
    | drains => exact nofun
    | loses here lost going => rw [(closed_of_going going _ _).2]; exact nofun
    | refuses here quit going => rw [(closed_of_going going _ _).2]; exact nofun
    | runs here going => rw [(closed_of_going going _ _).2]; exact nofun
    | @performs current op ops next here =>
      intro finished
      rw [(s.perform_keeps current op).1]
      refine inTime.served ?_
      rw [here]
      cases next with
      | returned => rfl
      | _ => cases finished
    | @releases id next here =>
      intro finished
      refine inTime.served ?_
      rw [here]
      cases next with
      | returned => rfl
      | _ => cases finished
    | @ends next here =>
      intro finished
      refine inTime.served ?_
      rw [here]
      cases next with
      | returned => rfl
      | _ => cases finished
  · refine ⟨history ▸ inTime.enqueued, ?_⟩
    rw [control, queue]
    exact inTime.served
  · refine ⟨history ▸ List.mem_append_left _ inTime.enqueued, ?_⟩
    rw [control, queue]
    intro finished member
    obtain member | same := List.mem_append.mp member
    · exact inTime.served finished member
    · rw [List.mem_singleton] at same
      exact (inOrder.enqueued id inTime.enqueued).2 (same ▸ created)

/-- All that holds in every state of a run. -/
structure Settled (s : System) : Prop where
  /-- Of each command. -/
  coherent : s.Coherent
  /-- Of the order. -/
  inOrder : s.InOrder
  /-- Of the promises. -/
  paid : s.AllPaid
  /-- Of the end. -/
  closing : s.Closing

theorem Settled.step {s after : System} (settled : s.Settled) {a : Action}
    (live : s.PayingStep a after) : after.Settled where
  coherent := settled.coherent.step live.1
  inOrder := settled.inOrder.step live.1.1
  paid := settled.paid.step settled.coherent live
  closing := settled.closing.step live.1.1

theorem init_settled (running : Bool) : (init running).Settled where
  coherent := init_coherent running
  inOrder := init_inOrder running
  paid := fun _ => ⟨rfl, rfl, by rintro (is | is | is) <;> cases is⟩
  closing := .of_open rfl

/-- When `runUntilPause` has returned, every command that was enqueued before its drain was over
has each promise it carries fulfilled once, its result perhaps not if its submitter had withdrawn
it. -/
theorem promises_kept (running : Bool) {before rest : List Action} {s final : System}
    (first : Transition.Run PayingStep (init running) before s)
    (opened : closed s.control = false) (second : Transition.Run PayingStep s rest final)
    (returned : final.control = .at .returned) :
    ∀ id ∈ s.history,
      ((final.entries id).submitter = .returned none ∨ (final.entries id).results.length = 1) ∧
        (final.entries id).pauses = (final.entries id).request.carriesPause.toNat ∧
        (final.entries id).traces = (final.entries id).request.carriesTrace.toNat := by
  intro id enqueued
  have settled : s.Settled :=
    first.invariant (fun _ _ _ settled live => settled.step live) (init_settled running)
  have inTime : s.InTime id := ⟨enqueued, fun finished => absurd (opened.symm.trans finished) nofun⟩
  obtain ⟨⟨coherent, inOrder, paid, closing⟩, inTime⟩ : final.Settled ∧ final.InTime id :=
    @Transition.Run.invariant _ _ _ (fun state => state.Settled ∧ state.InTime id)
      (fun _ _ _ both live => ⟨both.1.step live, both.2.step both.1.inOrder live.1.1⟩)
      _ _ _ second ⟨settled, inTime⟩
  have place : (final.view id).place = .away := by
    refine away_iff.mpr ⟨inTime.served (by rw [returned]; rfl), ?_⟩
    rw [returned]
    rfl
  have known := inOrder.enqueued id inTime.enqueued
  have unpending : final.pending.count id = 0 := by
    rw [closing.paid returned]
    rfl
  have late : (final.view id).early = false := by
    unfold View.early
    rw [place]
    exact decide_eq_false (not_or.mpr known)
  obtain ⟨pauses, traces, _⟩ := paid id
  rw [late, place, if_neg Bool.false_ne_true] at pauses traces
  refine ⟨?_, ?_, traces⟩
  · rcases (coherent.sound id).of_away place with absent | created | settles
    · exact absurd absent known.1
    · exact absurd created known.2
    · rcases settles.outcome with ⟨answer, once, _⟩ | withdrawn
      · rw [show answers [] = [] from rfl, List.append_nil] at once
        exact .inr (congrArg List.length once)
      · exact .inl withdrawn.submitter
  · change (final.entries id).pauses + final.pending.count id + 0 =
      (final.entries id).request.carriesPause.toNat at pauses
    omega

/-- The steps of a list that leave no promise behind. -/
def playPaying : List Action → System → Option System
  | [], s => some s
  | a :: actions, s => if s.paysAll a then (s.step a).bind (playPaying actions) else none

theorem run_of_playPaying {actions : List Action} :
    ∀ {s after : System}, s.playPaying actions = some after →
      (∀ a ∈ actions, withdraws a = false) → Transition.Run PayingStep s actions after := by
  induction actions with
  | nil =>
    intro s after played _
    cases played
    exact .nil s
  | cons a actions inductionHypothesis =>
    intro s after played calm
    unfold playPaying at played
    split at played
    · rename_i pays
      obtain ⟨middle, step, rest⟩ := Option.bind_eq_some_iff.mp played
      have own : s.OwnCommand a := by
        cases a with
        | cancel id => exact absurd (calm _ List.mem_cons_self) nofun
        | _ => trivial
      exact .cons ⟨⟨step, own⟩, pays⟩
        (inductionHypothesis rest fun a member => calm a (List.mem_cons_of_mem _ member))
    · cases played

/-- A future run is enqueued. -/
def futureRun : List Action := [.create 0 0 .requestRunFuture, .enqueue 0]

/-- It is executed, a frame stops, and a quit request ends the loop. -/
def futureRunServed : List Action :=
  List.replicate 22 (.emulate false) ++ [.raiseQuit] ++ List.replicate 5 (.emulate false)

theorem promises_kept_futureRun :
    ∃ s final, (init false).playPaying futureRun = some s ∧
      s.playPaying futureRunServed = some final ∧ final.control = .at .returned ∧
      (final.entries 0).pauses = 1 := by
  have begun : ((init false).playPaying futureRun).map
      (fun s => (closed s.control, s.history, (s.entries 0).request)) =
        some (false, [0], .requestRunFuture) := by
    decide
  have served : (((init false).playPaying futureRun).bind (playPaying futureRunServed)).map
      (fun final => (final.control, (final.entries 0).request)) =
        some (.at .returned, .requestRunFuture) := by
    decide
  obtain ⟨s, first, shown⟩ := Option.map_eq_some_iff.mp begun
  rw [first, Option.bind_some] at served
  obtain ⟨final, second, returned⟩ := Option.map_eq_some_iff.mp served
  simp only [Prod.mk.injEq] at shown returned
  have kept := promises_kept false (run_of_playPaying first (by decide)) shown.1
    (run_of_playPaying second (by decide)) returned.1 0
    (by rw [shown.2.1]; exact List.mem_cons_self)
  refine ⟨s, final, first, second, returned.1, ?_⟩
  rw [kept.2.1, returned.2]
  rfl

/-- A quit request between the `compare_exchange` and the test in `processCommand`: the command is
refused, and the promise of its pause is destroyed. -/
theorem refused_leaves_promise :
    ∃ final, (init false).play
        (futureRun ++ List.replicate 4 (.emulate true) ++ [.raiseQuit] ++
          List.replicate 10 (.emulate true)) = some final ∧
      final.control = .at .returned ∧ (final.entries 0).request.carriesPause = true ∧
      (final.entries 0).results = [.refused] ∧ (final.entries 0).pauses = 0 := by
  have played : ((init false).play
      (futureRun ++ List.replicate 4 (.emulate true) ++ [.raiseQuit] ++
        List.replicate 10 (.emulate true))).map
        (fun final => (final.control, (final.entries 0).request.carriesPause,
          (final.entries 0).results, (final.entries 0).pauses)) =
      some (.at .returned, true, [.refused], 0) := by
    decide
  obtain ⟨final, run, shown⟩ := Option.map_eq_some_iff.mp played
  simp only [Prod.mk.injEq] at shown
  exact ⟨final, run, shown⟩

end System

end VectorDebugger.Commands

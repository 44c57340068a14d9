import VectorDebugger.Debugger.CommandRuns

/-!
# What a submitter looks at

`submitAndWait` keeps `rawCmd` when it gives its command away. After a wait that timed out it reads
through that pointer twice, to load the state of the command and to withdraw it. Between the end of
the wait and these accesses nothing holds the emulation thread back: it may take the
command, answer it and destroy it. The accesses are to a living command exactly in the runs in which
the emulation thread never gets that far.
-/

namespace VectorDebugger.Commands

/-- The submitter has timed out and is about to read through its pointer. -/
def Submitter.inspects : Submitter → Bool
  | .timedOut | .cancelling => true
  | _ => false

/-- The step reads the state of this command through the pointer of its submitter. -/
def Action.Inspects (a : Action) (id : Nat) : Prop :=
  a = .load id ∨ a = .cancel id

namespace System

/-- The command has not been destroyed: what lives at its address is the command itself. -/
def Lives (s : System) (id : Nat) : Prop :=
  (s.memory (s.entries id).address).owner = some id

/-- Whichever thread goes next, a submitter that inspects its command finds it alive. -/
def InspectsLiving (s : System) : Prop :=
  ∀ a id after, a.Inspects id → s.step a = some after → s.Lives id

/-- The emulation thread is done with this command and destroys it next. -/
def destroys (s : System) : Option Nat :=
  match s.control with
  | .performing (some id) [] _ => some id
  | _ => none

/-- The step destroys a command whose submitter has timed out and has not finished its tests. -/
def DestroysInspected (s : System) (a : Action) : Prop :=
  ∃ id, s.destroys = some id ∧ (∃ stays, a = .emulate stays) ∧
    (s.entries id).submitter.inspects = true

/-! ### Who is about to inspect -/

theorem lives_iff {s : System} {id : Nat} : s.Lives id ↔ s.cell id ≠ none := by
  unfold Lives cell
  dsimp only
  split
  · rename_i owned
    exact ⟨fun _ => Option.some_ne_none _, fun _ => owned⟩
  · rename_i lost
    exact ⟨fun owned => absurd owned lost, fun present => absurd rfl present⟩

/-- The next step of such a submitter is an access through its pointer. -/
theorem inspectsLiving_iff {s : System} :
    s.InspectsLiving ↔ ∀ id, (s.entries id).submitter.inspects = true → s.Lives id := by
  constructor
  · intro living id inspects
    cases at_submitter : (s.entries id).submitter with
    | timedOut =>
      have enabled : ∃ after, s.step (.load id) = some after := by
        dsimp only [step]
        rw [if_pos at_submitter]
        exact ⟨_, rfl⟩
      obtain ⟨after, loads⟩ := enabled
      exact living _ id after (.inl rfl) loads
    | cancelling =>
      have enabled : ∃ after, s.step (.cancel id) = some after := by
        dsimp only [step]
        rw [if_pos at_submitter]
        split
        · exact ⟨_, rfl⟩
        · exact ⟨_, rfl⟩
      obtain ⟨after, cancels⟩ := enabled
      exact living _ id after (.inr rfl) cancels
    | _ =>
      rw [at_submitter] at inspects
      cases inspects
  · intro living a id after looks step
    apply living
    obtain rfl | rfl := looks
    · dsimp only [System.step] at step
      split at step
      · rename_i timedOut
        rw [timedOut]
        rfl
      · cases step
    · dsimp only [System.step] at step
      split at step
      · rename_i cancelling
        rw [cancelling]
        rfl
      · cases step

/-! ### What a step leaves alive -/

/-- The emulation thread changes no submitter and no address, and only a destructor frees memory. -/
structure Keeps (s after : System) : Prop where
  /-- Every submitter is where it was. -/
  submitter : ∀ id, (after.entries id).submitter = (s.entries id).submitter
  /-- No command moves. -/
  address : ∀ id, (after.entries id).address = (s.entries id).address
  /-- The memory of every other command is its own. -/
  owner : ∀ address, (after.memory address).owner = (s.memory address).owner ∨
    ∃ id, s.destroys = some id ∧ address = (s.entries id).address

theorem Keeps.of_same {s after : System} (entries : after.entries = s.entries)
    (memory : after.memory = s.memory) : s.Keeps after where
  submitter := fun id => by rw [entries]
  address := fun id => by rw [entries]
  owner := fun address => .inl (by rw [memory])

theorem store_owner (s : System) (address : Nat) (state : CommandState) (other : Nat) :
    ((s.store address state).memory other).owner = (s.memory other).owner := by
  unfold store
  dsimp only
  by_cases here : other = address
  · rw [here, Function.update_self]
  · rw [Function.update_of_ne here]

theorem exchange_keeps_all (s : System) (address : Nat) (desired : CommandState) :
    s.Keeps (s.exchange address desired) where
  submitter := (exchange_keeps s address desired).2.2.2
  address := by
    intro id
    unfold exchange
    dsimp only
    split
    · rfl
    · rename_i owner _
      unfold modify store
      dsimp only
      by_cases here : id = owner
      · rw [here, Function.update_self]
        split
        · rfl
        · rfl
      · rw [Function.update_of_ne here]
  owner := by
    intro other
    left
    unfold exchange
    dsimp only
    split
    · exact store_owner s address desired other
    · exact store_owner s address desired other

theorem perform_keeps_all (s : System) (current : Option Nat) (op : Op) :
    s.Keeps (s.perform current op) := by
  cases op with
  | setRunning | setPaused | raiseQuit => exact .of_same rfl rfl
  | fulfilPending => exact ⟨fun _ => rfl, fun _ => rfl, fun _ => .inl rfl⟩
  | fulfilPendingIfPaused =>
    unfold perform
    dsimp only
    split
    · exact ⟨fun _ => rfl, fun _ => rfl, fun _ => .inl rfl⟩
    · exact .of_same rfl rfl
  | pushPending =>
    cases current with
    | none => exact .of_same rfl rfl
    | some held => exact .of_same rfl rfl
  | complete =>
    cases current with
    | none => exact .of_same rfl rfl
    | some held => exact ⟨fun _ => rfl, fun _ => rfl, fun other => .inl (store_owner s _ _ other)⟩
  | execute | answer | fulfilPause | fulfilTrace =>
    cases current with
    | none => exact .of_same rfl rfl
    | some held =>
      refine ⟨perform_submitter s (some held) _, ?_, fun _ => .inl rfl⟩
      intro id
      unfold perform performOn modify
      dsimp only
      by_cases here : id = held
      · rw [here, Function.update_self]
      · rw [Function.update_of_ne here]

theorem release_keeps (s : System) {id : Nat} (destroys : s.destroys = some id) :
    s.Keeps (s.release id) where
  submitter := fun _ => rfl
  address := fun _ => rfl
  owner := by
    intro other
    by_cases here : other = (s.entries id).address
    · exact .inr ⟨id, destroys, here⟩
    · left
      unfold release
      dsimp only
      rw [Function.update_of_ne here]

/-- The place of the emulation thread does not count. -/
theorem Keeps.steer {s after : System} (keeps : s.Keeps after) (control : Control) :
    s.Keeps { after with control } :=
  ⟨keeps.submitter, keeps.address, keeps.owner⟩

theorem Emulates.keeps {s after : System} (step : s.Emulates after) : s.Keeps after := by
  cases step with
  | goes | leaves | closes | ends | dequeues | loses | refuses | runs => exact .of_same rfl rfl
  | starts => exact (exchange_keeps_all s _ _).steer _
  | drains => exact (exchange_keeps_all s _ _).steer _
  | performs => exact (perform_keeps_all s _ _).steer _
  | @releases id next here =>
    have destroys : s.destroys = some id := by
      unfold System.destroys
      rw [here]
    exact (release_keeps s destroys).steer _

namespace Coherent

variable {s after : System}

/-- The command that is destroyed next is alive. -/
theorem destroys_lives (coherent : s.Coherent) {id : Nat} (destroys : s.destroys = some id) :
    s.Lives id := by
  unfold System.destroys at destroys
  split at destroys
  · rename_i dying next here
    cases destroys
    have current : s.control.current = some id := by rw [here]; rfl
    have place : (s.view id).place = .performing [] := by
      rw [coherent.place_current current, here]
      exact if_pos rfl
    obtain ⟨⟨state, cell, _⟩, _⟩ := (coherent.sound id).of_performing place
    exact owner_of_cell cell
  · cases destroys

/-- A step of the emulation thread leaves a command alive that it does not destroy. -/
theorem lives_emulate (coherent : s.Coherent) (step : s.Emulates after) {id : Nat}
    (lives : s.Lives id) (spared : s.destroys ≠ some id) : after.Lives id := by
  obtain ⟨_, address, owner⟩ := step.keeps
  unfold Lives
  rw [address id]
  obtain same | ⟨dying, destroys, here⟩ := owner (s.entries id).address
  · rw [same]
    exact lives
  · have other : (s.memory (s.entries dying).address).owner = some dying :=
      coherent.destroys_lives destroys
    have both : some id = some dying := by
      rw [← other, ← here]
      exact lives.symm
    rw [Option.some.inj both] at spared
    exact absurd destroys spared

/-- A submitter that waits without an answer waits for a living command. -/
theorem lives_of_unanswered (coherent : s.Coherent) {id : Nat}
    (waits : (s.entries id).submitter.waits = true) (unanswered : (s.entries id).results = []) :
    s.Lives id := by
  apply lives_iff.mpr
  intro dead
  have dead' : (s.view id).cell = none := dead
  cases coherent.sound id with
  | absent _ _ absent =>
    have none_waits : (s.entries id).submitter = .absent := absent
    rw [none_waits] at waits
    cases waits
  | created _ cell => rw [dead'] at cell; cases cell
  | queued _ cell => rw [dead'] at cell; cases cell
  | withdrawn _ cell => rw [dead'] at cell; cases cell
  | examined _ cell => rw [dead'] at cell; cases cell
  | settling _ _ _ cell => rw [dead'] at cell; cases cell
  | gone _ _ settles =>
    obtain ⟨_, _, _, ⟨answer, once, _⟩ | ⟨returned, _⟩⟩ := settles
    · have results : (s.view id).entry.results = [] := unanswered
      rw [results] at once
      cases once
    · have gone_back : (s.entries id).submitter = .returned none := returned
      rw [gone_back] at waits
      cases waits

end Coherent

/-! ### Every step -/

/-- A submitter that has timed out and has not finished its tests has a living command. -/
def Careful (s : System) : Prop :=
  ∀ id, (s.entries id).submitter.inspects = true → s.Lives id

namespace Careful

variable {s after : System}

/-- The memory and the other commands are as before. -/
theorem of_modify (careful : s.Careful) {id : Nat} {change : Entry → Entry}
    (address : (change (s.entries id)).address = (s.entries id).address)
    (self : (change (s.entries id)).submitter.inspects = true → s.Lives id) :
    (s.modify id change).Careful := by
  intro other inspects
  unfold Lives modify at *
  dsimp only at *
  by_cases here : other = id
  · rw [here, Function.update_self] at inspects ⊢
    rw [address]
    exact self inspects
  · rw [Function.update_of_ne here] at inspects ⊢
    exact careful other inspects

/-- A successful `compare_exchange` leaves everything alive. -/
theorem of_exchange (careful : s.Careful) (address : Nat) (desired : CommandState) :
    (s.exchange address desired).Careful := by
  obtain ⟨submitter, addresses, _⟩ := exchange_keeps_all s address desired
  have owner : ∀ other, ((s.exchange address desired).memory other).owner =
      (s.memory other).owner := by
    intro other
    unfold exchange
    dsimp only
    split
    · exact store_owner s address desired other
    · exact store_owner s address desired other
  intro id inspects
  unfold Lives
  rw [addresses id, owner]
  rw [submitter id] at inspects
  exact careful id inspects

/-- A new command is made where none lives. -/
theorem create (careful : s.Careful) {id address : Nat} {request : Request}
    (step : s.step (.create id address request) = some after) : after.Careful := by
  dsimp only [System.step] at step
  split at step
  · rename_i allowed
    obtain ⟨_, free, _⟩ := allowed
    cases step
    intro other inspects
    unfold Lives
    dsimp only at inspects ⊢
    by_cases here : other = id
    · rw [here, Function.update_self] at inspects
      cases inspects
    · rw [Function.update_of_ne here] at inspects ⊢
      have lives := careful other inspects
      have elsewhere : (s.entries other).address ≠ address := by
        intro same
        unfold Lives at lives
        rw [same, free] at lives
        cases lives
      rw [Function.update_of_ne elsewhere]
      exact lives
  · cases step

/-- `wait_for` times out while the command is alive. -/
theorem timeOut (careful : s.Careful) (coherent : s.Coherent) {id : Nat}
    (step : s.step (.timeOut id) = some after) : after.Careful := by
  dsimp only [System.step] at step
  split at step
  · rename_i allowed
    obtain ⟨waiting, _, unanswered⟩ := allowed
    cases step
    apply careful.of_modify rfl
    intro _
    apply coherent.lives_of_unanswered _ unanswered
    rw [waiting]
    rfl
  · cases step

/-- The state is loaded; the submitter goes on to its `compare_exchange`, or has finished. -/
theorem load (careful : s.Careful) {id : Nat} (step : s.step (.load id) = some after) :
    after.Careful := by
  dsimp only [System.step] at step
  split at step
  · rename_i timedOut
    cases step
    apply careful.of_modify rfl
    intro _
    apply careful id
    rw [timedOut]
    rfl
  · cases step

/-- After the `compare_exchange` the submitter has finished. -/
theorem cancel (careful : s.Careful) {id : Nat} (step : s.step (.cancel id) = some after) :
    after.Careful := by
  dsimp only [System.step] at step
  split at step
  · split at step
    · cases step
      apply (careful.of_exchange _ _).of_modify rfl
      intro inspects
      cases inspects
    · cases step
      apply careful.of_modify rfl
      intro inspects
      cases inspects
  · cases step

theorem collect (careful : s.Careful) {id : Nat} (step : s.step (.collect id) = some after) :
    after.Careful := by
  dsimp only [System.step] at step
  split at step
  · cases step
  · split at step
    · cases step
      apply careful.of_modify rfl
      intro inspects
      cases inspects
    · cases step

theorem enqueue (careful : s.Careful) {id : Nat} (step : s.step (.enqueue id) = some after) :
    after.Careful := by
  dsimp only [System.step] at step
  split at step
  · cases step
    have queued : ({ s with
        queue := s.queue ++ [id], history := s.history ++ [id] } : System).Careful := careful
    apply queued.of_modify rfl
    intro inspects
    cases inspects
  · cases step

/-- The emulation thread destroys no command that is being inspected. -/
theorem emulate (careful : s.Careful) (coherent : s.Coherent) {stays : Bool}
    (spared : ¬ s.DestroysInspected (.emulate stays))
    (step : s.step (.emulate stays) = some after) : after.Careful := by
  have moves := emulates step
  intro id inspects
  rw [moves.keeps.submitter id] at inspects
  apply coherent.lives_emulate moves (careful id inspects)
  intro destroys
  exact spared ⟨id, destroys, ⟨stays, rfl⟩, inspects⟩

/-- Every step of every thread. -/
theorem step (careful : s.Careful) (coherent : s.Coherent) {a : Action}
    (spared : ¬ s.DestroysInspected a) (step : s.step a = some after) : after.Careful := by
  cases a with
  | create id address request => exact careful.create step
  | enqueue id => exact careful.enqueue step
  | raiseQuit =>
    cases step
    exact careful
  | clearRunning =>
    cases step
    exact careful
  | setPaused =>
    cases step
    exact careful
  | timeOut id => exact careful.timeOut coherent step
  | load id => exact careful.load step
  | cancel id => exact careful.cancel step
  | collect id => exact careful.collect step
  | emulate stays => exact careful.emulate coherent spared step

/-- A submitter whose command is alive withdraws no other. -/
theorem own (careful : s.Careful) {a : Action} (step : s.step a = some after) : s.OwnCommand a := by
  cases a with
  | cancel id =>
    intro _
    apply careful id
    dsimp only [System.step] at step
    split at step
    · rename_i cancelling
      rw [cancelling]
      rfl
    · cases step
  | _ => trivial

end Careful

/-! ### Every run -/

theorem play_append (front back : List Action) (s : System) :
    s.play (front ++ back) = (s.play front).bind (play back) := by
  induction front generalizing s with
  | nil => rfl
  | cons a front inductionHypothesis =>
    change (s.step a).bind (play (front ++ back)) = ((s.step a).bind (play front)).bind (play back)
    cases s.step a with
    | none => rfl
    | some after => exact inductionHypothesis after

theorem play_single (a : Action) (s : System) : s.play [a] = s.step a := by
  change (s.step a).bind some = s.step a
  cases s.step a with
  | none => rfl
  | some after => rfl

/-- In a run that spares the commands that are being inspected they are alive at its end. -/
theorem careful_of_spared (running : Bool) (actions : List Action) {s : System}
    (played : (init running).play actions = some s)
    (spared : ∀ front a middle, front ++ [a] <+: actions →
      (init running).play front = some middle → ¬ middle.DestroysInspected a) :
    s.Coherent ∧ s.Careful := by
  induction actions using List.reverseRecOn generalizing s with
  | nil =>
    cases played
    refine ⟨init_coherent running, ?_⟩
    intro id inspects
    cases inspects
  | append_singleton actions a inductionHypothesis =>
    rw [play_append] at played
    obtain ⟨middle, before, last⟩ := Option.bind_eq_some_iff.mp played
    rw [play_single] at last
    obtain ⟨coherent, careful⟩ := inductionHypothesis before
      fun front action middle within =>
        spared front action middle (within.trans (List.prefix_append actions [a]))
    have spares := spared actions a middle (List.prefix_refl _) before
    exact ⟨coherent.step ⟨last, careful.own last⟩, careful.step coherent spares last⟩

/-- A step that destroys a command while its submitter inspects it leaves the submitter with a
pointer to nothing. -/
theorem not_careful_of_destroys {s : System} {a : Action} (bad : s.DestroysInspected a) :
    ∃ after, s.step a = some after ∧ ¬ after.Careful := by
  obtain ⟨id, destroys, ⟨stays, rfl⟩, inspects⟩ := bad
  unfold System.destroys at destroys
  split at destroys
  · rename_i next here
    cases destroys
    have moves : s.step (.emulate stays) = some { s.release id with control := .at next } := by
      change s.emulate stays = _
      unfold System.emulate
      rw [here]
    refine ⟨_, moves, ?_⟩
    intro careful
    have lives := careful id inspects
    unfold Lives release at lives
    dsimp only at lives
    rw [Function.update_self] at lives
    cases lives
  · cases destroys

/-- Over any run of all threads: every access of `submitAndWait` to its command after the time-out
finds the command alive, in every state that the run passes through, exactly if the emulation thread
destroys no command between the time-out of its submitter and the end of the submitter's tests. -/
theorem inspections_alive_iff (running : Bool) (actions : List Action) :
    (∀ front s, front <+: actions → (init running).play front = some s → s.InspectsLiving) ↔
      ∀ front a s, front ++ [a] <+: actions → (init running).play front = some s →
        ¬ s.DestroysInspected a := by
  constructor
  · intro living front a s within played bad
    obtain ⟨after, step, lost⟩ := not_careful_of_destroys bad
    have next : (init running).play (front ++ [a]) = some after := by
      rw [play_append, played]
      exact (play_single a s).trans step
    exact lost (inspectsLiving_iff.mp (living _ after within next))
  · intro spared front s within played
    apply inspectsLiving_iff.mpr
    have reached := careful_of_spared running front played
      fun front' a middle within' => spared front' a middle (within'.trans within)
    exact reached.2

/-- The wait of a reset times out; before its submitter loads its state, the emulation thread takes
the reset out of the queue, executes it, answers it and destroys it. -/
theorem inspects_destroyed :
    ∃ s after, (init false).play resetRun = some s ∧ s.step (.load 0) = some after ∧
      ¬ s.Lives 0 := by
  have played : ((init false).play resetRun).map
      (fun s => ((s.memory (s.entries 0).address).owner, (s.step (.load 0)).isSome)) =
      some (none, true) := by
    decide
  obtain ⟨s, final, shown⟩ := Option.map_eq_some_iff.mp played
  rw [Prod.mk.injEq] at shown
  obtain ⟨after, step⟩ := Option.isSome_iff_exists.mp shown.2
  refine ⟨s, after, final, step, ?_⟩
  intro lives
  unfold Lives at lives
  rw [shown.1] at lives
  cases lives

end System

end VectorDebugger.Commands

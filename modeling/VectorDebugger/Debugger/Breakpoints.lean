import VectorDebugger.Debugger.Backend
import VectorDebugger.Machine.FrameRun

/-!
# Breakpoints

A breakpoint lives in three places: in the backend, in the set that the adapter last sent to the
board, and in the board. Every command that changes the first ends by bringing the other two into
step, and nothing else changes any of them. So the board checks exactly the enabled breakpoints
of the backend before every instruction of a frame, and the frame loop runs over none of them.
-/

namespace VectorDebugger

namespace Board

variable {δ : Type}

theorem foldl_removeBreakpoint (addrs : List Word) :
    ∀ board : Board δ, ∃ breakpoints,
      addrs.foldl (fun board addr => board.removeBreakpoint addr.toNat 1) board =
        { board with breakpoints } ∧
      ∀ bp, bp ∈ breakpoints ↔
        bp ∈ board.breakpoints ∧ ∀ addr ∈ addrs, bp ≠ { addr := addr.toNat, kind := 1 } := by
  induction addrs with
  | nil => exact fun board => ⟨board.breakpoints, rfl, by simp⟩
  | cons addr addrs inductionHypothesis =>
    intro board
    obtain ⟨breakpoints, rest, listed⟩ := inductionHypothesis (board.removeBreakpoint addr.toNat 1)
    refine ⟨breakpoints, rest, fun bp => ?_⟩
    rw [listed]
    simp [removeBreakpoint, and_assoc]

theorem foldl_insertBreakpoint (addrs : List Word) :
    ∀ board : Board δ,
      addrs.foldl (fun board addr => board.insertBreakpoint addr.toNat 1) board =
        { board with
          breakpoints := board.breakpoints ++
            addrs.map fun addr => { addr := addr.toNat, kind := 1 } } := by
  induction addrs with
  | nil => simp
  | cons addr addrs inductionHypothesis =>
    intro board
    rw [List.foldl_cons, inductionHypothesis]
    simp [insertBreakpoint]

end Board

namespace DebugAdapter

variable {δ : Type}

/-- The board checks exactly the addresses that were sent to it. -/
def BoardSynced (target : DebugAdapter δ) : Prop :=
  ∀ addr : Word, { addr := addr.toNat, kind := 1 } ∈ target.board.breakpoints ↔
    addr ∈ target.syncedBreakpoints

/-- Sending the breakpoints changes nothing else of the board. -/
theorem syncBreakpoints_board (target : DebugAdapter δ) (bps : List DebuggerBreakpoint) :
    ∃ breakpoints, (target.syncBreakpoints bps).board = { target.board with breakpoints } := by
  unfold syncBreakpoints
  dsimp only
  rw [Board.foldl_insertBreakpoint]
  obtain ⟨breakpoints, removed, _⟩ := Board.foldl_removeBreakpoint
    (target.syncedBreakpoints.filter (· ∉ enabledAddresses bps)) target.board
  rw [removed]
  exact ⟨_, rfl⟩

theorem mem_enabledAddresses (bps : List DebuggerBreakpoint) (addr : Word) :
    addr ∈ enabledAddresses bps ↔ ∃ bp ∈ bps, bp.enabled = true ∧ bp.address = addr := by
  unfold enabledAddresses
  rw [List.mem_insertionSort, List.mem_dedup, List.mem_map]
  simp [and_assoc]

theorem syncBreakpoints_spec (target : DebugAdapter δ) (bps : List DebuggerBreakpoint)
    (synced : target.BoardSynced) :
    (target.syncBreakpoints bps).BoardSynced ∧
      ∀ addr, addr ∈ (target.syncBreakpoints bps).syncedBreakpoints ↔
        ∃ bp ∈ bps, bp.enabled = true ∧ bp.address = addr := by
  refine ⟨fun addr => ?_, mem_enabledAddresses bps⟩
  unfold syncBreakpoints
  dsimp only
  obtain ⟨breakpoints, removed, kept⟩ := Board.foldl_removeBreakpoint
    (target.syncedBreakpoints.filter (· ∉ enabledAddresses bps)) target.board
  rw [Board.foldl_insertBreakpoint, removed]
  dsimp only
  have here := synced addr
  rw [List.mem_append, kept, here]
  simp only [List.mem_filter, List.mem_map, decide_eq_true_eq, ne_eq, Breakpoint.mk.injEq,
    and_true, BitVec.toNat_inj]
  constructor
  · rintro (⟨old, stays⟩ | ⟨other, ⟨new, _⟩, rfl⟩)
    · by_contra gone
      exact stays addr ⟨old, gone⟩ rfl
    · exact new
  · intro new
    by_cases old : addr ∈ target.syncedBreakpoints
    · exact .inl ⟨old, fun other gone same => gone.2 (same ▸ new)⟩
    · exact .inr ⟨addr, ⟨new, old⟩, rfl⟩

end DebugAdapter

namespace DebugBackend

variable {δ : Type}

/-- The address holds an enabled breakpoint. -/
def Enabled (backend : DebugBackend δ) (addr : Word) : Prop :=
  ∃ entry ∈ backend.breakpoints, entry.2.enabled = true ∧ entry.2.address = addr

/-- The board checks exactly the enabled breakpoints. -/
structure Synced (backend : DebugBackend δ) : Prop where
  /-- Adapter and board agree. -/
  board : backend.target.BoardSynced
  /-- Backend and adapter agree. -/
  enabled : ∀ addr, addr ∈ backend.target.syncedBreakpoints ↔ backend.Enabled addr
  /-- The board checks breakpoints at all. -/
  debugging : backend.target.board.debugging = true

/-- The breakpoints are the same in all three places. -/
structure SameBreakpoints (after backend : DebugBackend δ) : Prop where
  /-- In the backend. -/
  breakpoints : after.breakpoints = backend.breakpoints
  /-- In the adapter. -/
  synced : after.target.syncedBreakpoints = backend.target.syncedBreakpoints
  /-- In the board. -/
  board : after.target.board.breakpoints = backend.target.board.breakpoints
  /-- And the board checks them as before. -/
  debugging : after.target.board.debugging = backend.target.board.debugging

theorem SameBreakpoints.refl (backend : DebugBackend δ) : backend.SameBreakpoints backend :=
  ⟨rfl, rfl, rfl, rfl⟩

theorem SameBreakpoints.trans {first second third : DebugBackend δ}
    (left : second.SameBreakpoints first) (right : third.SameBreakpoints second) :
    third.SameBreakpoints first :=
  ⟨right.1.trans left.1, right.2.trans left.2, right.3.trans left.3, right.4.trans left.4⟩

theorem Synced.of_same {backend after : DebugBackend δ} (synced : backend.Synced)
    (same : after.SameBreakpoints backend) : after.Synced where
  board addr := by
    rw [same.board, same.synced]
    exact synced.board addr
  enabled addr := by
    rw [same.synced]
    unfold Enabled
    rw [same.breakpoints]
    exact synced.enabled addr
  debugging := same.debugging.trans synced.debugging

theorem checkBreakpoint_iff (backend : DebugBackend δ) :
    backend.checkBreakpoint = true ↔ backend.Enabled backend.target.pc := by
  simp [checkBreakpoint, Enabled]

/-- Sending the breakpoints brings all three places into step. -/
theorem syncBreakpointsToTarget_synced (backend : DebugBackend δ)
    (board : backend.target.BoardSynced) (debugging : backend.target.board.debugging = true) :
    backend.syncBreakpointsToTarget.Synced := by
  obtain ⟨synced, listed⟩ := backend.target.syncBreakpoints_spec
    ((backend.breakpoints.map (·.2)).filter (·.enabled)) board
  obtain ⟨breakpoints, whole⟩ := backend.target.syncBreakpoints_board
    ((backend.breakpoints.map (·.2)).filter (·.enabled))
  refine ⟨synced, fun addr => (listed addr).trans ?_, ?_⟩
  · constructor
    · rintro ⟨bp, sent, enabled, place⟩
      obtain ⟨entry, stored, rfl⟩ := List.mem_map.mp (List.mem_filter.mp sent).1
      exact ⟨entry, stored, enabled, place⟩
    · rintro ⟨entry, stored, enabled, place⟩
      exact ⟨entry.2, List.mem_filter.mpr ⟨List.mem_map_of_mem stored, enabled⟩, enabled, place⟩
  · unfold syncBreakpointsToTarget
    dsimp only
    rw [whole]
    exact debugging

/-! ### What leaves the breakpoints alone -/

variable [Chips δ]

theorem stepInstruction_board (backend : DebugBackend δ) :
    backend.stepInstruction.target.board = backend.target.board.singleStep true := rfl

theorem stepInstruction_same (backend : DebugBackend δ) :
    backend.stepInstruction.SameBreakpoints backend := by
  have step := backend.target.board.singleStep_stepOf true
  constructor
  · unfold stepInstruction
    rfl
  · unfold stepInstruction DebugAdapter.stepInstruction
    rfl
  · rw [stepInstruction_board]
    exact step.breakpoints
  · rw [stepInstruction_board]
    exact step.debugging

theorem traceLoop_same (params : TraceExecutionParams) (left : Nat) :
    ∀ (backend : DebugBackend δ) (bounds : Word × Word),
      (traceLoop params left backend bounds).1.SameBreakpoints backend := by
  induction left with
  | zero => exact fun backend bounds => .refl backend
  | succ left inductionHypothesis =>
    intro backend bounds
    unfold traceLoop
    split
    · exact .refl backend
    · dsimp only
      split
      · exact backend.stepInstruction_same
      · exact backend.stepInstruction_same.trans (inductionHypothesis backend.stepInstruction _)

/-- Loading a program leaves the breakpoints of the board alone. -/
theorem loadRom_same (target : DebugAdapter δ) (path : Text) (org : Nat) :
    (target.loadRom path org).1.syncedBreakpoints = target.syncedBreakpoints ∧
      (target.loadRom path org).1.board.breakpoints = target.board.breakpoints ∧
      (target.loadRom path org).1.board.debugging = target.board.debugging := by
  have written : ∀ (writes : List (Byte × Byte)) (board : Board δ),
      let done := writes.foldl (fun board write => (board.output write.1 write.2).commit) board
      done.breakpoints = board.breakpoints ∧ done.debugging = board.debugging := by
    intro writes
    induction writes with
    | nil => exact fun board => ⟨rfl, rfl⟩
    | cons write writes inductionHypothesis =>
      exact fun board => inductionHypothesis (board.output write.1 write.2).commit
  unfold DebugAdapter.loadRom
  dsimp only
  split
  · exact ⟨rfl, rfl, rfl⟩
  · exact ⟨rfl, written DebugAdapter.bootInit _⟩

omit [Chips δ] in
theorem whenPaused_same (backend : DebugBackend δ) (error : Text) (done : DebugBackend δ)
    (same : done.SameBreakpoints backend) :
    (backend.whenPaused error done).1.SameBreakpoints backend := by
  unfold whenPaused
  split
  · exact same
  · exact .refl backend

omit [Chips δ] in
theorem writeMemory_same (backend : DebugBackend δ) (address : Word) (writeData : List Byte) :
    (backend.writeMemory address writeData).SameBreakpoints backend := by
  unfold writeMemory
  generalize writeData.zipIdx = entries
  induction entries generalizing backend with
  | nil => exact .refl backend
  | cons entry entries inductionHypothesis =>
    rw [List.foldl_cons]
    refine SameBreakpoints.trans ?_ (inductionHypothesis _)
    exact ⟨rfl, rfl, rfl, rfl⟩

/-- What `executeFrame` does when the debugger lets it run. -/
theorem executeFrame_run (backend : DebugBackend δ)
    (free : backend.target.board.debuggerInterrupt = false) :
    Board.FrameRun true backend.target.board.startFrame backend.executeFrame.1
      backend.executeFrame.2.target.board :=
  backend.target.board.executeFrame_spec true free _ backend.target.executeFrame_eq

/-- And when it does not. -/
theorem executeFrame_held (backend : DebugBackend δ)
    (held : backend.target.board.debuggerInterrupt = true) :
    backend.executeFrame.1 = [] ∧
      backend.executeFrame.2.target.board = backend.target.board := by
  have ran := backend.target.executeFrame_eq
  unfold Board.executeFrame at ran
  rw [held, if_pos rfl] at ran
  obtain ⟨nothing, same⟩ := Prod.mk.inj (Option.some.inj ran)
  exact ⟨nothing.symm, same.symm⟩

theorem executeFrame_same (backend : DebugBackend δ) :
    backend.executeFrame.2.SameBreakpoints backend := by
  cases held : backend.target.board.debuggerInterrupt with
  | false =>
    have run := backend.executeFrame_run held
    exact ⟨rfl, rfl, run.debugger.2, run.debugger.1⟩
  | true =>
    obtain ⟨_, same⟩ := backend.executeFrame_held held
    exact ⟨rfl, rfl, congrArg Board.breakpoints same, congrArg Board.debugging same⟩

/-! ### Commands keep the three places in step -/

/-- A command leaves the breakpoints alone, or edits the table of the backend and sends it. -/
theorem executeCommand_sends (backend : DebugBackend δ) (command : Command) :
    (backend.executeCommand command).1.SameBreakpoints backend ∨
      ∃ edited : DebugBackend δ, edited.target = backend.target ∧
        (backend.executeCommand command).1 = edited.syncBreakpointsToTarget := by
  cases command with
  | addBreakpoint address =>
    refine Or.inr ⟨(backend.addBreakpoint address).1, ?_, rfl⟩
    unfold addBreakpoint
    split <;> rfl
  | removeBreakpoint address =>
    refine Or.inr ⟨(backend.removeBreakpoint address).1, ?_, rfl⟩
    unfold removeBreakpoint
    split <;> rfl
  | setBreakpointEnabled address enabled =>
    refine Or.inr ⟨(backend.setBreakpointEnabled address enabled).1, ?_, rfl⟩
    unfold setBreakpointEnabled
    split <;> rfl
  | clearBreakpoints => exact Or.inr ⟨backend.clearBreakpoints, rfl, rfl⟩
  | step => exact Or.inl backend.stepInstruction_same
  | loadRom name org =>
    obtain ⟨sent, breakpoints, debugging⟩ := loadRom_same backend.target name org
    exact Or.inl ⟨rfl, sent, breakpoints, debugging⟩
  | memoryWrite address writeData =>
    exact Or.inl (whenPaused_same _ _ _ (backend.writeMemory_same address writeData))
  | registerWrite | ioWrite => exact Or.inl (whenPaused_same _ _ _ ⟨rfl, rfl, rfl, rfl⟩)
  | executeTrace params =>
    unfold executeCommand
    dsimp only
    split
    · exact Or.inl (.refl backend)
    · have traced := traceLoop_same params params.maxInstructions.toNat
        { backend with traceBusy := true } (backend.target.sp, backend.target.sp)
      exact Or.inl ⟨traced.breakpoints, traced.synced, traced.board, traced.debugging⟩
  | _ => exact Or.inl ⟨rfl, rfl, rfl, rfl⟩

theorem executeCommand_synced (backend : DebugBackend δ) (synced : backend.Synced)
    (command : Command) : (backend.executeCommand command).1.Synced := by
  rcases backend.executeCommand_sends command with same | ⟨edited, target, sent⟩
  · exact synced.of_same same
  · rw [sent]
    apply syncBreakpointsToTarget_synced
    · rw [target]
      exact synced.board
    · rw [target]
      exact synced.debugging

theorem processCommand_synced (backend : DebugBackend δ) (synced : backend.Synced)
    (queued : QueuedCommand) : (backend.processCommand queued).backend.Synced := by
  unfold processCommand
  split
  · exact synced
  · split
    · exact synced
    · split
      · exact synced.of_same ⟨rfl, rfl, rfl, rfl⟩
      · exact synced.of_same ⟨rfl, rfl, rfl, rfl⟩
      · apply executeCommand_synced
        exact synced.of_same ⟨rfl, rfl, rfl, rfl⟩
      · exact backend.executeCommand_synced synced _

theorem drainCommands_synced (commands : List (Signals × QueuedCommand)) :
    ∀ backend : DebugBackend δ, backend.Synced → (backend.drainCommands commands).Synced := by
  induction commands with
  | nil => exact fun backend synced => synced
  | cons entry commands inductionHypothesis =>
    intro backend synced
    have processed := processCommand_synced (backend.raise entry.1)
      (synced.of_same ⟨rfl, rfl, rfl, rfl⟩) entry.2
    unfold drainCommands
    dsimp only
    split
    · exact inductionHypothesis _ processed
    · exact processed

/-! ### The loops -/

/-- A pass runs over no breakpoint. -/
structure PassRecord.Sound (pass : PassRecord δ) : Prop where
  /-- No instruction of the frame stands on an enabled breakpoint. -/
  clear : ∀ begun ∈ pass.executed, ¬ pass.entered.Enabled begun.machine.cpu.pc
  /-- The frame has executed the listed instructions and no other. -/
  whole : Board.FrameRun true pass.entered.target.board.startFrame pass.executed
      pass.left.target.board ∨
    pass.executed = [] ∧ pass.left.target.board = pass.entered.target.board
  /-- A stop is on an enabled breakpoint. -/
  stop : ∀ stopped ∈ pass.stopped,
    stopped.stopReason = .breakpoint ∧ stopped.Enabled stopped.target.pc

/-- A run of the frame loop runs over no breakpoint but the one it stood on when it was resumed. -/
structure FramesRun.Sound (run : FramesRun δ) : Prop where
  /-- A step is taken only when the run was resumed on a breakpoint, from that breakpoint. -/
  step : ∀ skipped ∈ run.skipped,
    skipped.skipBreakpoint = true ∧ skipped.Enabled skipped.target.pc
  /-- Every pass is sound. -/
  passes : ∀ pass ∈ run.passes, pass.Sound

/-- The places are in step, unless the loop left because of a quit request. -/
def Settled (backend : DebugBackend δ) : Prop := backend.Synced ∨ backend.quitRequested = true

omit [Chips δ] in
theorem poll_same (backend : DebugBackend δ) : backend.poll.SameBreakpoints backend := by
  unfold poll
  split
  · exact ⟨rfl, rfl, rfl, rfl⟩
  · split
    · exact ⟨rfl, rfl, rfl, rfl⟩
    · split <;> exact ⟨rfl, rfl, rfl, rfl⟩

omit [Chips δ] in
theorem raise_same (backend : DebugBackend δ) (signals : Signals) :
    (backend.raise signals).SameBreakpoints backend := ⟨rfl, rfl, rfl, rfl⟩

omit [Chips δ] in
theorem enterFrame_same (backend : DebugBackend δ) (signals : Signals) :
    (backend.enterFrame signals).SameBreakpoints backend := by
  have polled := poll_same
    ({ backend with target := backend.target.debuggerContinue }.raise signals)
  exact ⟨polled.breakpoints, polled.synced, polled.board, polled.debugging⟩

theorem executeFrame_sound (backend : DebugBackend δ) (synced : backend.Synced)
    (stopped : Option (DebugBackend δ))
    (stop : ∀ stop ∈ stopped, stop.stopReason = .breakpoint ∧ stop.Enabled stop.target.pc) :
    PassRecord.Sound
      { entered := backend, executed := backend.executeFrame.1
        left := backend.executeFrame.2, stopped } := by
  cases held : backend.target.board.debuggerInterrupt with
  | false =>
    have run := backend.executeFrame_run held
    refine ⟨fun begun listed enabled => ?_, .inl run, stop⟩
    apply run.clear synced.debugging begun listed
    exact (synced.board _).mpr ((synced.enabled _).mpr enabled)
  | true =>
    obtain ⟨nothing, same⟩ := backend.executeFrame_held held
    refine ⟨fun begun listed => ?_, .inr ⟨nothing, same⟩, stop⟩
    have inside : begun ∈ backend.executeFrame.1 := listed
    rw [nothing] at inside
    exact absurd inside List.not_mem_nil

theorem frames_sound (inputs : List FrameInput) :
    ∀ backend : DebugBackend δ, backend.Synced →
      (frames inputs backend).skipped = none ∧
        (∀ pass ∈ (frames inputs backend).passes, pass.Sound) ∧
        (frames inputs backend).backend.Settled := by
  induction inputs with
  | nil =>
    intro backend synced
    unfold frames
    split
    · exact ⟨rfl, by simp, .inl synced⟩
    · exact ⟨rfl, by simp [leaveFrames], .inl (synced.of_same ⟨rfl, rfl, rfl, rfl⟩)⟩
  | cons input inputs inductionHypothesis =>
    intro backend synced
    unfold frames
    split
    · exact ⟨rfl, by simp [leaveFrames], .inl (synced.of_same ⟨rfl, rfl, rfl, rfl⟩)⟩
    · dsimp only
      split
      · rename_i quit
        exact ⟨rfl, by simp, .inr quit⟩
      · have entered := (synced.of_same (backend.raise_same input.before)).of_same
          ((backend.raise input.before).enterFrame_same input.atPoll)
        have settled := (drainCommands_synced input.commands _
          (entered.of_same (executeFrame_same _))).of_same (raise_same _ input.after)
        refine ⟨?_, List.forall_mem_cons.mpr ⟨?_, ?_⟩, ?_⟩
        · split_ifs
          · rfl
          · rfl
          · exact (inductionHypothesis _ settled).1
        · apply executeFrame_sound _ entered
          intro stop stopped
          split at stopped
          · rename_i stops
            cases stopped
            rw [Bool.and_eq_true, checkBreakpoint_iff] at stops
            exact ⟨rfl, stops.1⟩
          · cases stopped
        · split_ifs
          · simp [leaveFrames]
          · simp [leaveFrames]
          · exact (inductionHypothesis _ settled).2.1
        · split_ifs
          · exact .inl (settled.of_same ⟨rfl, rfl, rfl, rfl⟩)
          · exact .inl (settled.of_same ⟨rfl, rfl, rfl, rfl⟩)
          · exact (inductionHypothesis _ settled).2.2

theorem executeFramesTarget_sound (backend : DebugBackend δ) (synced : backend.Synced)
    (inputs : List FrameInput) :
    (backend.executeFramesTarget inputs).Sound ∧
      (backend.executeFramesTarget inputs).backend.Settled := by
  have sent := backend.syncBreakpointsToTarget_synced synced.board synced.debugging
  unfold executeFramesTarget
  dsimp only
  split
  · rename_i skips
    rw [Bool.and_eq_true, checkBreakpoint_iff] at skips
    have same := stepInstruction_same { backend.syncBreakpointsToTarget with skipBreakpoint := false }
    have stepped := (sent.of_same ⟨rfl, rfl, rfl, rfl⟩ : Synced
      { backend.syncBreakpointsToTarget with skipBreakpoint := false }).of_same same
    obtain ⟨_, passes, settled⟩ := frames_sound inputs _ stepped
    refine ⟨⟨fun skipped taken => ?_, passes⟩, settled⟩
    cases taken
    exact skips
  · obtain ⟨none', passes, settled⟩ := frames_sound inputs _ sent
    refine ⟨⟨fun skipped taken => ?_, passes⟩, settled⟩
    rw [none'] at taken
    cases taken

theorem mainLoop_sound (inputs : List MainInput) :
    ∀ backend : DebugBackend δ, backend.Synced →
      ∀ run ∈ (mainLoop inputs backend).runs, run.Sound := by
  induction inputs with
  | nil => simp [mainLoop]
  | cons input inputs inductionHypothesis =>
    intro backend synced
    unfold mainLoop
    dsimp only
    generalize running : (if backend.running then backend.executeFramesTarget input.frames
      else { skipped := none, passes := [], backend, finished := true }) = ran
    have sound : ran.Sound ∧ ran.backend.Settled := by
      rw [← running]
      split
      · exact backend.executeFramesTarget_sound synced input.frames
      · exact ⟨⟨by simp, by simp⟩, .inl synced⟩
    split
    · simpa using sound.1
    · split
      · simpa using sound.1
      · rename_i staying
        have kept : ran.backend.Synced := by
          rcases sound.2 with kept | quit
          · exact kept
          · simp [raise, quit] at staying
        intro run listed
        rcases List.mem_cons.mp listed with rfl | later
        · exact sound.1
        · refine inductionHypothesis _ (processCommand_synced _ ?_ _) run later
          exact kept.of_same ⟨rfl, rfl, rfl, rfl⟩

end DebugBackend

end VectorDebugger

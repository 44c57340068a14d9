import VectorDebugger.Debugger.LoadedSymbols
import VectorDebugger.Debugger.TemporaryBreakpoints
import VectorDebugger.Library.Transition

/-!
# The three sets of breakpoints

The backend keeps a table of breakpoints, the adapter the set of addresses it last sent, the board
a vector that it searches. The sets are sent by difference, so that each is right only as long as
the one before it was. Commands and loads of programs keep all three right.
-/

namespace VectorDebugger

open Transition (Run)

namespace Board

variable {δ : Type}

/-- The breakpoint that the adapter inserts for an address. -/
def breakpointAt (addr : Word) : Breakpoint := { addr := addr.toNat, kind := 1 }

theorem breakpointAt_inj {addr other : Word} (same : breakpointAt addr = breakpointAt other) :
    addr = other :=
  BitVec.toNat_inj.mp (congrArg Breakpoint.addr same)

theorem foldl_removeBreakpoint_sublist (addrs : List Word) (board : Board δ) :
    (addrs.foldl (fun board addr => board.removeBreakpoint addr.toNat 1) board).breakpoints.Sublist
      board.breakpoints := by
  induction addrs generalizing board with
  | nil => exact List.Sublist.refl _
  | cons addr addrs inductionHypothesis =>
    exact (inductionHypothesis _).trans List.filter_sublist

end Board

namespace DebugAdapter

variable {δ : Type}

/-- The board lists the addresses that were sent to it, each once, and nothing else. -/
structure BoardLists (target : DebugAdapter δ) : Prop where
  /-- Each breakpoint is listed once. -/
  once : target.board.breakpoints.Nodup
  /-- They are those of the addresses sent. -/
  listed : ∀ bp, bp ∈ target.board.breakpoints ↔
    ∃ addr ∈ target.syncedBreakpoints, bp = Board.breakpointAt addr

theorem nodup_enabledAddresses (bps : List DebuggerBreakpoint) : (enabledAddresses bps).Nodup :=
  (List.perm_insertionSort _ _).nodup_iff.mpr (List.nodup_dedup _)

/-- Sending breakpoints by difference keeps the vector of the board right. -/
theorem BoardLists.syncBreakpoints {target : DebugAdapter δ} (lists : target.BoardLists)
    (bps : List DebuggerBreakpoint) : (target.syncBreakpoints bps).BoardLists := by
  obtain ⟨breakpoints, removed, kept⟩ := Board.foldl_removeBreakpoint
    (target.syncedBreakpoints.filter (· ∉ enabledAddresses bps)) target.board
  have fewer := Board.foldl_removeBreakpoint_sublist
    (target.syncedBreakpoints.filter (· ∉ enabledAddresses bps)) target.board
  rw [removed] at fewer
  have sent : (target.syncBreakpoints bps).board.breakpoints = breakpoints ++
      ((enabledAddresses bps).filter (· ∉ target.syncedBreakpoints)).map Board.breakpointAt := by
    unfold DebugAdapter.syncBreakpoints
    dsimp only
    rw [Board.foldl_insertBreakpoint, removed]
    rfl
  have old : ∀ bp ∈ breakpoints, ∃ addr ∈ target.syncedBreakpoints, bp = Board.breakpointAt addr :=
    fun bp listed => (lists.listed bp).mp ((kept bp).mp listed).1
  constructor
  · rw [sent, List.nodup_append]
    refine ⟨lists.once.sublist fewer, ?_, ?_⟩
    · exact ((nodup_enabledAddresses bps).filter _).map fun _ _ => Board.breakpointAt_inj
    · intro bp listed other new same
      obtain ⟨addr, known, rfl⟩ := old bp listed
      obtain ⟨place, added, here⟩ := List.mem_map.mp new
      have equal := Board.breakpointAt_inj (here.trans same.symm)
      have absent := of_decide_eq_true (List.mem_filter.mp added).2
      exact absent (equal ▸ known)
  · intro bp
    rw [sent, List.mem_append]
    constructor
    · rintro (listed | new)
      · obtain ⟨stays, apart⟩ := (kept bp).mp listed
        obtain ⟨addr, known, rfl⟩ := (lists.listed bp).mp stays
        refine ⟨addr, ?_, rfl⟩
        by_contra gone
        exact apart addr (List.mem_filter.mpr ⟨known, decide_eq_true gone⟩) rfl
      · obtain ⟨addr, added, rfl⟩ := List.mem_map.mp new
        exact ⟨addr, (List.mem_filter.mp added).1, rfl⟩
    · rintro ⟨addr, enabled, rfl⟩
      by_cases known : addr ∈ target.syncedBreakpoints
      · refine Or.inl ((kept _).mpr ⟨(lists.listed _).mpr ⟨addr, known, rfl⟩, ?_⟩)
        intro other gone same
        have equal : addr = other := Board.breakpointAt_inj same
        exact of_decide_eq_true (List.mem_filter.mp gone).2 (equal ▸ enabled)
      · exact Or.inr (List.mem_map.mpr
          ⟨addr, List.mem_filter.mpr ⟨enabled, decide_eq_true known⟩, rfl⟩)

end DebugAdapter

namespace Instrumentation

/-- `DebugBackend::clearHistory`. -/
def clearHistory (inst : Instrumentation) : Instrumentation :=
  { inst with
    instrHistory := inst.instrHistory.clear
    memHistory := inst.memHistory.clear
    ioHistory := inst.ioHistory.clear }

/-- `DebugBackend::clearRuntimeAccessMap`. -/
def clearRuntimeAccessMap (inst : Instrumentation) : Instrumentation :=
  { inst with
    runtimeAccessMap := fun _ =>
      { read := false, write := false, fetch := false
        readCount := 0, writeCount := 0, fetchCount := 0 }
    runtimeAccessLog := inst.runtimeAccessLog.clear
    accessSequence := 0 }

end Instrumentation

namespace DebugBackend

variable {δ : Type}

/-- The stages of `DebugBackend::loadRom` after the program is in memory: history, breakpoints,
run state and annotations of the program before are cleared. -/
def afterLoadRom (backend : DebugBackend δ) (files : AnnotationFiles) (path : Text) :
    DebugBackend δ :=
  let cleared : DebugBackend δ :=
    { backend with
      instrumentation :=
        { backend.instrumentation.clearHistory with
          instructionSequence := 0, freeRunSequenceStarted := false } }
  let unmarked := cleared.clearBreakpoints.syncBreakpointsToTarget
  { unmarked with
    instrumentation := unmarked.instrumentation.clearRuntimeAccessMap
    running := false
    state := .paused
    pauseRequested := false }.loadAnnotations files path

variable [Chips δ]

/-- `DebugBackend::loadRom`, with its result. -/
def loadRom (backend : DebugBackend δ) (files : AnnotationFiles) (path : Text) (org : Nat) :
    DebugBackend δ × Bool :=
  let loaded := backend.executeCommand (.loadRom path org)
  if loaded.2.result.success then (loaded.1.afterLoadRom files path, true) else (loaded.1, false)

/-- What can happen to the breakpoints: a command, or the load of a program. -/
inductive BreakpointAction
  | command (command : Command)
  | loadRom (files : AnnotationFiles) (path : Text) (org : Nat)

/-- One of them. -/
inductive BreakpointStep : DebugBackend δ → BreakpointAction → DebugBackend δ → Prop
  | command (backend : DebugBackend δ) (command : Command) :
    BreakpointStep backend (.command command) (backend.executeCommand command).1
  | loadRom (backend : DebugBackend δ) (files : AnnotationFiles) (path : Text) (org : Nat) :
    BreakpointStep backend (.loadRom files path org) (backend.loadRom files path org).1

omit [Chips δ] in
theorem TableOk.setBreakpointEnabled {backend : DebugBackend δ} (ok : backend.TableOk)
    (address : Word) (enabled : Bool) :
    (backend.setBreakpointEnabled address enabled).1.TableOk := by
  unfold DebugBackend.setBreakpointEnabled
  cases found : backend.findBreakpointByAddress address with
  | none => exact ok
  | some entry =>
    have same : ∀ known : Nat × DebuggerBreakpoint,
        (if known.1 = entry.1 then (known.1, { known.2 with enabled }) else known).1 = known.1 ∧
          (if known.1 = entry.1 then (known.1, { known.2 with enabled }) else known).2.address =
            known.2.address := by
      intro known
      split
      · exact ⟨rfl, rfl⟩
      · exact ⟨rfl, rfl⟩
    refine ⟨fun changed listed => ?_, ?_, ?_⟩
    · obtain ⟨known, stored, rfl⟩ := List.mem_map.mp listed
      rw [(same known).1]
      exact ok.fresh known stored
    · dsimp only
      rw [List.map_map]
      have ids := List.map_congr_left fun known (_ : known ∈ backend.breakpoints) => (same known).1
      exact ids ▸ ok.ids
    · dsimp only
      rw [List.map_map]
      have places :=
        List.map_congr_left fun known (_ : known ∈ backend.breakpoints) => (same known).2
      exact places ▸ ok.addresses

omit [Chips δ] in
theorem TableOk.clearBreakpoints (backend : DebugBackend δ) : backend.clearBreakpoints.TableOk :=
  ⟨nofun, List.nodup_nil, List.nodup_nil⟩

theorem TableOk.executeCommand {backend : DebugBackend δ} (ok : backend.TableOk)
    (command : Command) : (backend.executeCommand command).1.TableOk := by
  cases edits : command.editsBreakpoints with
  | false => exact ok.of_table (backend.executeCommand_table command edits)
  | true =>
    cases command with
    | addBreakpoint address => exact (ok.addBreakpoint address).of_table rfl
    | removeBreakpoint address => exact (ok.removeBreakpoint address).of_table rfl
    | setBreakpointEnabled address enabled =>
      exact (ok.setBreakpointEnabled address enabled).of_table rfl
    | clearBreakpoints => exact (TableOk.clearBreakpoints backend).of_table rfl
    | _ => exact nomatch edits

/-- All three sets are right. -/
structure SetsRight (backend : DebugBackend δ) : Prop where
  /-- The table has each address once. -/
  table : backend.TableOk
  /-- The board has the addresses of the adapter. -/
  board : backend.target.BoardLists
  /-- The adapter has the enabled addresses of the table. -/
  enabled : ∀ addr, addr ∈ backend.target.syncedBreakpoints ↔ backend.Enabled addr

omit [Chips δ] in
/-- Sending a table with the sets of the adapter and the board right makes all three right. -/
theorem SetsRight.sent {edited : DebugBackend δ} (table : edited.TableOk)
    (board : edited.target.BoardLists) : edited.syncBreakpointsToTarget.SetsRight where
  table := table.of_table rfl
  board := board.syncBreakpoints _
  enabled addr := by
    refine (DebugAdapter.mem_enabledAddresses _ addr).trans ?_
    constructor
    · rintro ⟨bp, sent, enabled, place⟩
      obtain ⟨entry, stored, rfl⟩ := List.mem_map.mp (List.mem_filter.mp sent).1
      exact ⟨entry, stored, enabled, place⟩
    · rintro ⟨entry, stored, enabled, place⟩
      exact ⟨entry.2, List.mem_filter.mpr ⟨List.mem_map_of_mem stored, enabled⟩, enabled, place⟩

theorem SetsRight.executeCommand {backend : DebugBackend δ} (right : backend.SetsRight)
    (command : Command) : (backend.executeCommand command).1.SetsRight := by
  have table := right.table.executeCommand command
  rcases backend.executeCommand_sends command with same | ⟨edited, target, sent⟩
  · refine ⟨table, ⟨?_, fun bp => ?_⟩, fun addr => ?_⟩
    · rw [same.board]
      exact right.board.once
    · rw [same.board, same.synced]
      exact right.board.listed bp
    · rw [same.synced]
      unfold Enabled
      rw [same.breakpoints]
      exact right.enabled addr
  · rw [sent] at table ⊢
    exact SetsRight.sent (table.of_table rfl) (target ▸ right.board)

theorem BreakpointStep.setsRight {backend after : DebugBackend δ} {action : BreakpointAction}
    (step : BreakpointStep backend action after) (right : backend.SetsRight) :
    after.SetsRight := by
  cases step with
  | command command => exact right.executeCommand command
  | loadRom files path org =>
    have loaded := right.executeCommand (.loadRom path org)
    unfold DebugBackend.loadRom
    dsimp only
    split
    · have sent := SetsRight.sent
        (TableOk.clearBreakpoints (backend.executeCommand (.loadRom path org)).1) loaded.board
      exact ⟨sent.table.of_table rfl, sent.board, sent.enabled⟩
    · exact loaded

/-- The board at an address. -/
def boardAt (backend : DebugBackend δ) (addr : Word) : Board δ :=
  { backend.target.board with
    machine :=
      { backend.target.board.machine with
        cpu := { backend.target.board.machine.cpu with pc := addr } } }

/-- The three sets of breakpoints agree in every state that commands and loads of programs reach:
the table has each address at most once, the board stops exactly at its enabled addresses, and has
each of them in its vector once. -/
theorem breakpoint_sets_agree (chips : δ) (boot : List Byte) (files : Text → List Byte)
    {actions : List BreakpointAction} {backend : DebugBackend δ}
    (run : Run BreakpointStep (init chips boot files) actions backend) :
    (backend.breakpoints.map (·.2.address)).Nodup ∧
      (∀ addr, (backend.boardAt addr).checkBreakpoint = true ↔ backend.Enabled addr) ∧
      ∀ addr, backend.Enabled addr →
        backend.target.board.breakpoints.count (Board.breakpointAt addr) = 1 := by
  have right : backend.SetsRight := by
    refine run.invariant (fun _ _ _ right step => step.setsRight right) ⟨tableOk_init .., ?_, ?_⟩
    · exact ⟨List.nodup_nil, fun bp => by simp [init, Board.powerOn]⟩
    · exact fun addr => by simp [init, Enabled]
  have listed : ∀ addr, Board.breakpointAt addr ∈ backend.target.board.breakpoints ↔
      backend.Enabled addr := by
    intro addr
    rw [right.board.listed, ← right.enabled]
    constructor
    · rintro ⟨other, known, same⟩
      rw [Board.breakpointAt_inj same]
      exact known
    · exact fun known => ⟨addr, known, rfl⟩
  refine ⟨right.table.addresses, fun addr => ?_, fun addr enabled => ?_⟩
  · exact List.contains_iff_mem.trans (listed addr)
  · exact List.count_eq_one_of_mem right.board.once ((listed addr).mpr enabled)

/-- A breakpoint is added, disabled and enabled again. -/
theorem breakpoint_sets_agree_toggled :
    let added := ((init () [] fun _ => []).executeCommand (.addBreakpoint 5)).1
    let disabled := (added.executeCommand (.setBreakpointEnabled 5 false)).1
    let enabled := (disabled.executeCommand (.setBreakpointEnabled 5 true)).1
    enabled.target.board.breakpoints.count (Board.breakpointAt 5) = 1 := by
  intro added disabled enabled
  have run : Run BreakpointStep (init () [] fun _ => []) _ enabled :=
    .cons (.command _ (.addBreakpoint 5)) (.cons (.command _ (.setBreakpointEnabled 5 false))
      (.cons (.command _ (.setBreakpointEnabled 5 true)) (.nil _)))
  exact (breakpoint_sets_agree () [] (fun _ => []) run).2.2 5
    ⟨(1, { address := 5, enabled := true }), List.mem_singleton_self _, rfl, rfl⟩

end DebugBackend

end VectorDebugger

import VectorDebugger.Debugger.LoadedRom
import VectorDebugger.Debugger.PortOrder
import VectorDebugger.Debugger.RingBuffer

/-!
# The raster event log

`io.onwrite` records every call of `IO::output` with the place of the beam, the frame counter and
the program counter of that moment. Inside an `OUT` the processor has fetched both bytes of the
instruction, so the recorded program counter is two past it; and the debugger's own port writes
and the writes of a program load are recorded as well.
-/

namespace VectorDebugger

/-- `RasterEvent`. -/
structure RasterEvent where
  /-- `frame`. -/
  frame : Nat
  /-- `vCycle`. -/
  vCycle : Nat
  /-- `rasterLine`. -/
  rasterLine : Nat
  /-- `vCycleInLine`. -/
  vCycleInLine : Nat
  /-- `pc`. -/
  pc : Word
  /-- `port`. -/
  port : Byte
  /-- `value`. -/
  value : Byte
deriving DecidableEq, Repr

/-- A call of the `io.onwrite` hook, with the board whose `OUT` made it, if one did. -/
structure RasterPush (δ : Type) where
  /-- The board that executes the `OUT`. -/
  cause : Option (Board δ)
  /-- The event that the hook records. -/
  event : RasterEvent

namespace Board

variable {δ : Type} [Chips δ]

omit [Chips δ] in
/-- What the `io.onwrite` hook records while the processor stands at `pc`. -/
def rasterEvent (board : Board δ) (pc : Word) (write : Byte × Byte) : RasterEvent where
  frame := board.frameNo
  vCycle := board.beam.rasterLine * 768 + board.beam.rasterPixel
  rasterLine := board.beam.rasterLine
  vCycleInLine := board.beam.rasterPixel
  pc
  port := write.1
  value := write.2

/-- `i8080_pc()` inside the `IO::output` of an `OUT`: the opcode and the port are fetched. -/
def outPc (board : Board δ) : Word := board.machine.bus.fetchByte.2.fetchByte.2.cpu.pc

/-- The calls of the hook while the board executes its next instruction. -/
def outPushes (board : Board δ) : List (RasterPush δ) :=
  (latches board.machine.events).map fun write =>
    { cause := some board, event := board.rasterEvent board.outPc write }

/-- The event that an `OUT` should leave, with its own address. -/
def outEvent (board : Board δ) : RasterEvent :=
  board.rasterEvent board.machine.cpu.pc board.machine.outWrite

omit [Chips δ] in
/-- The program counter is two past the `OUT`. -/
theorem outPc_eq (board : Board δ) : board.outPc = board.machine.cpu.pc + 2 := by
  have fetched : board.outPc = board.machine.cpu.pc + 1 + 1 := rfl
  rw [fetched, BitVec.add_assoc]
  rfl

/-- An `OUT` calls the hook once, with its port and value; other instructions do not. -/
theorem outPushes_eq (board : Board δ) :
    board.outPushes =
      if board.machine.opcode = 0xd3 then
        [{ cause := some board
           event := board.rasterEvent (board.machine.cpu.pc + 2) board.machine.outWrite }]
      else [] := by
  unfold outPushes
  rw [board.machine.next_latch.2.2, board.outPc_eq]
  split <;> rfl

end Board

/-- The target with its raster event log. -/
structure RasterTarget (δ : Type) where
  /-- The target. -/
  target : DebugAdapter δ
  /-- `rasterEvents_`. -/
  rasterEvents : RingBuffer RasterEvent 50000

namespace RasterTarget

variable {δ : Type} [Chips δ]

omit [Chips δ] in
/-- `DebugAdapter::clearRasterEvents`. -/
def clearRasterEvents (state : RasterTarget δ) : RasterTarget δ :=
  { state with rasterEvents := state.rasterEvents.clear }

omit [Chips δ] in
/-- `DebugAdapter::getRasterEvents`; `maxResults` is absent for `SIZE_MAX`. -/
def getRasterEvents (state : RasterTarget δ) (frame vCycleStart vCycleEnd : Nat) (port : Int)
    (pc : Word) (maxResults : Option Nat) : List RasterEvent :=
  let out := state.rasterEvents.snapshot.filter fun ev =>
    !(frame != 0 && ev.frame != frame) &&
      !(decide (ev.vCycle < vCycleStart) || decide (ev.vCycle > vCycleEnd)) &&
      !(decide (port ≥ 0) && ev.port != BitVec.ofInt 8 port) &&
      !(pc != 0xffff && ev.pc != pc)
  match maxResults with
  | none => out
  | some most => out.drop (out.length - most)

omit [Chips δ] in
/-- `getRasterEvents` without filters. -/
def allRasterEvents (state : RasterTarget δ) : List RasterEvent :=
  state.getRasterEvents 0 0 0xffffffff (-1) 0xffff none

/-- The log after the hook was called. -/
def record (log : RingBuffer RasterEvent 50000) (pushes : List (RasterPush δ)) :
    RingBuffer RasterEvent 50000 :=
  pushes.foldl (fun log push => log.push push.event) log

/-- The calls of the hook while committed writes are made in order. -/
def writePushes : List (Byte × Byte) → Board δ → List (RasterPush δ)
  | [], _ => []
  | write :: writes, board =>
    { cause := none, event := board.rasterEvent board.machine.cpu.pc write } ::
      writePushes writes (board.output write.1 write.2).commit

/-- The calls of the hook in `DebugAdapter::loadRom`, which writes the initial values of its
ports with the processor at zero. -/
def loadPushes (target : DebugAdapter δ) (path : Text) (org : Nat) : List (RasterPush δ) :=
  if target.files path = [] then []
  else
    let org := if org = 0 ∧ path.contains 0x2e then getRomLoadAddress path else org
    let loaded :=
      ((target.board.initFromVector (target.files path) org).reset .loadrom 0).execute 0xf3
    writePushes DebugAdapter.bootInit (loaded.jump 0).commit

/-- One step of a run, with the calls of the hook. -/
inductive RasterStep : RasterTarget δ → List (RasterPush δ) → RasterTarget δ → Prop
  /-- `DebugAdapter::stepInstruction`. -/
  | stepInstruction (state : RasterTarget δ) :
    RasterStep state state.target.board.outPushes
      { target := state.target.stepInstruction
        rasterEvents := record state.rasterEvents state.target.board.outPushes }
  /-- `DebugAdapter::executeFrame`, which may stop at a breakpoint. -/
  | executeFrame (state : RasterTarget δ) :
    RasterStep state (state.target.executeFrame.1.flatMap Board.outPushes)
      { target := state.target.executeFrame.2
        rasterEvents :=
          record state.rasterEvents (state.target.executeFrame.1.flatMap Board.outPushes) }
  /-- `DebugAdapter::writeIoPort`. -/
  | writeIoPort (state : RasterTarget δ) (port w8 : Byte) :
    RasterStep state
      [{ cause := none
         event := state.target.board.rasterEvent state.target.board.machine.cpu.pc (port, w8) }]
      { target := state.target.writeIoPort port w8
        rasterEvents := state.rasterEvents.push
          (state.target.board.rasterEvent state.target.board.machine.cpu.pc (port, w8)) }
  /-- `DebugAdapter::loadRom`. -/
  | loadRom (state : RasterTarget δ) (path : Text) (org : Nat) :
    RasterStep state (loadPushes state.target path org)
      { target := (state.target.loadRom path org).1
        rasterEvents := record state.rasterEvents (loadPushes state.target path org) }
  /-- Anything that makes no port write. -/
  | elsewhere (state : RasterTarget δ) (target : DebugAdapter δ) :
    RasterStep state [] { state with target }

omit [Chips δ] in
/-- The hook adds its events to the history that the log holds. -/
theorem record_holds (pushes : List (RasterPush δ)) :
    ∀ {log : RingBuffer RasterEvent 50000} {items : List RasterEvent}, log.Holds items →
      (record log pushes).Holds (items ++ pushes.map (·.event)) := by
  induction pushes with
  | nil =>
    intro log items held
    rw [List.map_nil, List.append_nil]
    exact held
  | cons push pushes inductionHypothesis =>
    intro log items held
    rw [List.map_cons, List.append_cons]
    exact inductionHypothesis (held.push push.event)

/-- Every step records the calls it makes. -/
theorem RasterStep.recorded {state after : RasterTarget δ} {pushes : List (RasterPush δ)}
    (step : RasterStep state pushes after) :
    after.rasterEvents = record state.rasterEvents pushes := by
  cases step with
  | stepInstruction | executeFrame | writeIoPort | loadRom | elsewhere => rfl

/-- What the hook records is the place of the beam. -/
structure AtBeam (event : RasterEvent) : Prop where
  /-- The position counts the lines and the pixels. -/
  position : event.vCycle = event.rasterLine * 768 + event.vCycleInLine
  /-- It is in the frame. -/
  inFrame : event.vCycle < 768 * 312

omit [Chips δ] in
theorem rasterEvent_atBeam (board : Board δ) (pc : Word) (write : Byte × Byte) :
    AtBeam (board.rasterEvent pc write) := by
  have line := board.beam.line_lt
  have pixel := board.beam.pixel_lt
  refine ⟨rfl, ?_⟩
  show board.beam.rasterLine * 768 + board.beam.rasterPixel < 768 * 312
  omega

/-- A call of the hook: it records the beam, and inside an `OUT` the program counter is two past
the instruction. -/
structure HookCall (push : RasterPush δ) : Prop where
  /-- The beam. -/
  beam : AtBeam push.event
  /-- The program counter inside an `OUT`. -/
  pc : ∀ board, push.cause = some board → push.event.pc = board.machine.cpu.pc + 2

theorem outPushes_hook (board : Board δ) : ∀ push ∈ board.outPushes, HookCall push := by
  intro push listed
  rw [board.outPushes_eq] at listed
  split at listed
  · rw [List.mem_singleton.mp listed]
    refine ⟨rasterEvent_atBeam _ _ _, fun cause same => ?_⟩
    rw [← Option.some.inj same]
    rfl
  · exact absurd listed List.not_mem_nil

omit [Chips δ] in
/-- A call that no `OUT` made. -/
theorem other_hook (board : Board δ) (pc : Word) (write : Byte × Byte) :
    HookCall ({ cause := none, event := board.rasterEvent pc write } : RasterPush δ) := by
  refine ⟨rasterEvent_atBeam board pc write, ?_⟩
  intro cause same
  exact absurd same.symm (Option.some_ne_none cause)

theorem writePushes_hook (writes : List (Byte × Byte)) :
    ∀ board : Board δ, ∀ push ∈ writePushes writes board, HookCall push := by
  induction writes with
  | nil => exact fun board push listed => absurd listed List.not_mem_nil
  | cons write writes inductionHypothesis =>
    intro board
    have first := other_hook board board.machine.cpu.pc write
    have later := inductionHypothesis (board.output write.1 write.2).commit
    exact List.forall_mem_cons.mpr ⟨first, later⟩

theorem loadPushes_hook (target : DebugAdapter δ) (path : Text) (org : Nat) :
    ∀ push ∈ loadPushes target path org, HookCall push := by
  have none : ∀ push ∈ ([] : List (RasterPush δ)), HookCall push :=
    fun push listed => absurd listed List.not_mem_nil
  by_cases missing : target.files path = []
  · have pushes : loadPushes target path org = [] := if_pos missing
    rw [pushes]
    exact none
  · have pushes : ∃ board, loadPushes target path org =
        writePushes DebugAdapter.bootInit board := ⟨_, if_neg missing⟩
    obtain ⟨board, found⟩ := pushes
    rw [found]
    exact writePushes_hook DebugAdapter.bootInit board

/-- Every call of a step is one. -/
theorem RasterStep.hook {state after : RasterTarget δ} {pushes : List (RasterPush δ)}
    (step : RasterStep state pushes after) : ∀ push ∈ pushes, HookCall push := by
  cases step with
  | stepInstruction => exact outPushes_hook state.target.board
  | executeFrame =>
    intro push listed
    obtain ⟨board, _, within⟩ := List.mem_flatMap.mp listed
    exact outPushes_hook board push within
  | writeIoPort port w8 =>
    have call := other_hook state.target.board state.target.board.machine.cpu.pc (port, w8)
    exact List.forall_mem_singleton.mpr call
  | loadRom path org => exact loadPushes_hook state.target path org
  | elsewhere => exact fun push listed => absurd listed List.not_mem_nil

/-- What a run adds to the history that the log holds. -/
theorem run_holds {state final : RasterTarget δ} {steps : List (List (RasterPush δ))}
    (run : Transition.Run RasterStep state steps final) :
    ∀ {items : List RasterEvent}, state.rasterEvents.Holds items →
      final.rasterEvents.Holds (items ++ steps.flatten.map (·.event)) ∧
        ∀ push ∈ steps.flatten, HookCall push := by
  induction run with
  | nil state =>
    intro items held
    rw [List.flatten_nil, List.map_nil, List.append_nil]
    exact ⟨held, fun push listed => absurd listed List.not_mem_nil⟩
  | cons step rest inductionHypothesis =>
    rename_i pushes _
    intro items held
    have recorded := record_holds pushes held
    rw [← step.recorded] at recorded
    obtain ⟨later, hooks⟩ := inductionHypothesis recorded
    rw [List.flatten_cons, List.map_append, ← List.append_assoc]
    refine ⟨later, fun push listed => ?_⟩
    cases List.mem_append.mp listed with
    | inl here => exact step.hook push here
    | inr there => exact hooks push there

/-- The calls that the log has kept. -/
def retained (pushes : List (RasterPush δ)) : List (RasterPush δ) :=
  pushes.drop (pushes.length - 50000)

/-- After a clear, the log holds the events of the last fifty thousand calls of the hook. -/
theorem allRasterEvents_run {state final : RasterTarget δ} {steps : List (List (RasterPush δ))}
    (run : Transition.Run RasterStep state.clearRasterEvents steps final) :
    final.allRasterEvents = (retained steps.flatten).map (·.event) := by
  have cleared : state.clearRasterEvents.rasterEvents.Holds [] :=
    state.rasterEvents.holds_clear (by decide)
  obtain ⟨held, hooks⟩ := run_holds run cleared
  have snapshot := held.snapshot
  rw [List.nil_append, List.length_map, ← List.map_drop] at snapshot
  unfold allRasterEvents getRasterEvents
  dsimp only
  rw [snapshot]
  apply List.filter_eq_self.mpr
  intro event listed
  obtain ⟨push, kept, same⟩ := List.mem_map.mp listed
  have below := (hooks push (List.mem_of_mem_drop kept)).beam.inFrame
  rw [same] at below
  have late : ¬ event.vCycle > 0xffffffff := by omega
  have anyPort : ¬ (-1 : Int) ≥ 0 := by decide
  simp only [bne_self_eq_false, Bool.false_and, Bool.not_false, Nat.not_lt_zero, decide_false,
    Bool.false_or, late, anyPort, Bool.true_and]

/-- The log is the list of the executed `OUT`s: each kept call was made by one and recorded its
port, its value, its own address and the beam where it began, and the events are in the order of
the frames and the beam. -/
structure IsOutLog (events : List RasterEvent) (pushes : List (RasterPush δ)) : Prop where
  /-- The last fifty thousand calls are kept, one event for each, in order. -/
  kept : events = (retained pushes).map (·.event)
  /-- Each was made by an `OUT`, and is as it should be. -/
  outs : ∀ push ∈ retained pushes, ∃ board, push.cause = some board ∧ push.event = board.outEvent
  /-- The beam is in the frame. -/
  beam : ∀ event ∈ events, AtBeam event
  /-- The events are in order. -/
  ordered : events.Pairwise fun first second =>
    first.frame < second.frame ∨ first.frame = second.frame ∧ first.vCycle ≤ second.vCycle

/-- After a clear, the log is the list of the executed `OUT`s exactly as long as no port is
written. -/
theorem raster_events_iff {state final : RasterTarget δ} {steps : List (List (RasterPush δ))}
    (run : Transition.Run RasterStep state.clearRasterEvents steps final) :
    IsOutLog final.allRasterEvents steps.flatten ↔ steps.flatten = [] := by
  have events := allRasterEvents_run run
  have cleared : state.clearRasterEvents.rasterEvents.Holds [] :=
    state.rasterEvents.holds_clear (by decide)
  obtain ⟨_, hooks⟩ := run_holds run cleared
  constructor
  · intro isLog
    by_contra written
    have kept : retained steps.flatten ≠ [] := by
      have some := List.length_pos_of_ne_nil written
      unfold retained
      intro none
      have length := congrArg List.length none
      rw [List.length_drop, List.length_nil] at length
      omega
    obtain ⟨push, listed⟩ := List.exists_mem_of_ne_nil _ kept
    obtain ⟨board, cause, event⟩ := isLog.outs push listed
    have recorded := (hooks push (List.mem_of_mem_drop listed)).pc board cause
    have address : push.event.pc = board.machine.cpu.pc := by
      rw [event]
      rfl
    rw [address] at recorded
    bv_omega
  · intro none
    have empty : retained steps.flatten = [] := by
      rw [none]
      exact List.drop_nil
    rw [empty, List.map_nil] at events
    rw [events]
    refine ⟨?_, ?_, fun event listed => absurd listed List.not_mem_nil, .nil⟩
    · rw [empty, List.map_nil]
    · rw [empty]
      exact fun push listed => absurd listed List.not_mem_nil

/-- A target with `OUT 02h` at zero and an empty log. -/
def outTarget : RasterTarget Unit where
  target := { board := Board.outProgram, syncedBreakpoints := [], files := fun _ => [] }
  rasterEvents := .empty

/-- Before its first step the log is right. -/
theorem raster_events_outTarget :
    IsOutLog outTarget.clearRasterEvents.allRasterEvents
      ([] : List (List (RasterPush Unit))).flatten := by
  have run : Transition.Run RasterStep outTarget.clearRasterEvents []
      outTarget.clearRasterEvents := .nil _
  exact (raster_events_iff run).mpr List.flatten_nil

/-- The `OUT` at zero is recorded with the address two. -/
theorem raster_event_past_out :
    outTarget.target.board.machine.opcode = 0xd3 ∧ outTarget.target.pc = 0 ∧
      (record outTarget.clearRasterEvents.rasterEvents
          outTarget.target.board.outPushes).snapshot.map (fun event => (event.pc, event.port)) =
        [(2, 0x02)] := by
  decide

end RasterTarget

end VectorDebugger

import VectorDebugger.Debugger.Backend
import VectorDebugger.Debugger.LoadedRom
import VectorDebugger.Machine.PortWrites

/-!
# The video mode shown

The debugger keeps copies of the two ports that hold the scroll register and the video mode, fed
by the hook of the processor's `OUT`. The ports also change in ways the hook does not see as
writes to them: a control word clears both, a program load writes a control word, a reset puts
the copies back and not the ports, and with the instrumentation off the hook does nothing. The
copies stay in step exactly as long as such a step sets what the machine holds already.
-/

namespace VectorDebugger

/-- `VideoModeSnapshot`. -/
structure VideoModeSnapshot where
  /-- `screenWidth`. -/
  screenWidth : Nat
  /-- `screenHeight`. -/
  screenHeight : Nat
  /-- `mode512`. -/
  mode512 : Bool
  /-- `scrollValue`. -/
  scrollValue : Byte
  /-- `visibleWidth`. -/
  visibleWidth : Nat
  /-- `visibleHeight`. -/
  visibleHeight : Nat
  /-- `pixelsPerByte`. -/
  pixelsPerByte : Nat
  /-- `borderLeft`. -/
  borderLeft : Nat
  /-- `borderTop`. -/
  borderTop : Nat
deriving DecidableEq, Repr

/-- `DebugBackend::videoModeSnapshot`, from the copies of the ports. -/
def Instrumentation.videoModeSnapshot (inst : Instrumentation) : VideoModeSnapshot :=
  let mode512 := inst.ioPB &&& 0x10 != 0
  let visibleWidth := if mode512 then 512 else 256
  { screenWidth := 576
    screenHeight := 288
    mode512
    scrollValue := inst.ioPA
    visibleWidth
    visibleHeight := 256
    pixelsPerByte := if mode512 then 4 else 8
    borderLeft := (576 - visibleWidth) / 2
    borderTop := (288 - 256) / 2 }

/-- The effect of a committed write on ports A and B of the first adapter. -/
def videoWrite (port w8 : Byte) (video : Byte × Byte) : Byte × Byte :=
  if port = 0x00 then (if w8 &&& 0x80 == 0 then video else (0, 0))
  else if port = 0x02 then (video.1, w8)
  else if port = 0x03 then (w8, video.2)
  else video

/-- The effect of the hook on the copies of the two ports. -/
def copyWrite (video : Byte × Byte) (write : Byte × Byte) : Byte × Byte :=
  (if write.1 = 0x03 then write.2 else video.1, if write.1 = 0x02 then write.2 else video.2)

namespace Io

variable {δ : Type} [Chips δ]

/-- Ports A and B of the first adapter. -/
def video (io : Io δ) : Byte × Byte := (io.pa, io.pb)

theorem realoutput_video (io : Io δ) (memory : Memory) (port w8 : Byte) :
    (io.realoutput memory port w8).io.video = videoWrite port w8 io.video := by
  by_cases zero : port = 0x00
  · subst zero
    change ((if w8 &&& 0x80 == 0 then _ else _ : Commit δ).io.video) =
      if w8 &&& 0x80 == 0 then io.video else (0, 0)
    split <;> rfl
  · by_cases two : port = 0x02
    · subst two
      rfl
    · by_cases three : port = 0x03
      · subst three
        rfl
      · have notZero : port.toNat ≠ 0x00 := fun same => zero (BitVec.eq_of_toNat_eq same)
        have notTwo : port.toNat ≠ 0x02 := fun same => two (BitVec.eq_of_toNat_eq same)
        have notThree : port.toNat ≠ 0x03 := fun same => three (BitVec.eq_of_toNat_eq same)
        unfold videoWrite
        rw [if_neg zero, if_neg two, if_neg three]
        unfold realoutput
        dsimp only
        split
        all_goals first | contradiction | rfl

/-- The commit of a latched write. -/
theorem commit_video (io : Io δ) (memory : Memory) :
    (io.commit memory).io.video =
      match io.outport with
      | none => io.video
      | some (port, w8) => videoWrite port w8 io.video := by
  unfold commit
  cases latch : io.outport with
  | none => rfl
  | some write => exact io.realoutput_video memory write.1 write.2

/-- The two commits of an `OUT` do to the two ports what its write does. -/
theorem commits_video {io : Io δ} (memory : Memory) {port w8 : Byte}
    (latched : io.outport = some (port, w8)) :
    (io.commitPalette.2.commit memory).io.video = videoWrite port w8 io.video := by
  cases waiting : io.palettebyte with
  | some colour =>
    rw [commitPalette_waiting waiting, commit_video]
    dsimp only
    rw [latched]
    rfl
  | none =>
    by_cases first : port = 0x0c
    · subst first
      rw [commitPalette_latched waiting latched, commit_video]
      rfl
    · have other : ∀ w8, io.outport ≠ some (0x0c, w8) := by
        intro w8 same
        rw [latched] at same
        simp only [Option.some.injEq, Prod.mk.injEq] at same
        exact first same.1
      rw [commitPalette_other waiting other, commit_video, latched]

end Io

namespace Instrumentation

/-- The copies of the two ports. -/
def video (inst : Instrumentation) : Byte × Byte := (inst.ioPA, inst.ioPB)

theorem observe_video (inst : Instrumentation) (event : BusEvent) :
    (inst.observe event).video =
      if inst.instrumentationEnabled then (event.latched.toList).foldl copyWrite inst.video
      else inst.video := by
  cases event with
  | read virt phys stack fetch value pc =>
    simp only [observe, onMemoryRead, detect, recordRead, logAccess, BusEvent.latched,
      Option.toList_none, List.foldl_nil, ite_self]
    split
    · rfl
    · split <;> rfl
  | write virt phys stack value pc =>
    simp only [observe, onMemoryWrite, logAccess, BusEvent.latched, Option.toList_none,
      List.foldl_nil, ite_self]
    split <;> rfl
  | input port value =>
    simp only [observe, onIoInput, BusEvent.latched, Option.toList_none, List.foldl_nil, ite_self]
    split <;> rfl
  | output port value =>
    simp only [observe, onIoOutput, BusEvent.latched, Option.toList_some, List.foldl_cons,
      List.foldl_nil]
    cases inst.instrumentationEnabled <;> rfl

/-- The hooks follow the writes that the callbacks report, when they are enabled. -/
theorem observeAll_video (events : List BusEvent) :
    ∀ inst : Instrumentation, (inst.observeAll events).video =
      if inst.instrumentationEnabled then (latches events).foldl copyWrite inst.video
      else inst.video := by
  induction events with
  | nil =>
    intro inst
    exact (ite_self _).symm
  | cons event events inductionHypothesis =>
    intro inst
    have head : latches (event :: events) = event.latched.toList ++ latches events := by
      unfold latches
      cases event <;> rfl
    have moved : inst.observeAll (event :: events) = (inst.observe event).observeAll events := rfl
    rw [moved, inductionHypothesis, observe_instrumentationEnabled, observe_video, head,
      List.foldl_append]
    split <;> rfl

end Instrumentation

/-- The video mode and the scroll register that two ports stand for. -/
def shownVideo (video : Byte × Byte) : Bool × Byte := (video.2 &&& 0x10 != 0, video.1)

/-- When the hook and the port do the same to what is shown. -/
theorem shownVideo_write {machine copy : Byte × Byte} (same : shownVideo copy = shownVideo machine)
    (enabled : Bool) (port w8 : Byte) :
    shownVideo (if enabled then copyWrite copy (port, w8) else copy) =
        shownVideo (videoWrite port w8 machine) ↔
      (port = 0x00 → w8 &&& 0x80 ≠ 0 → shownVideo machine = (false, 0)) ∧
        (enabled = false →
          (port = 0x02 → (w8 &&& 0x10 != 0) = (shownVideo machine).1) ∧
            (port = 0x03 → w8 = (shownVideo machine).2)) := by
  by_cases zero : port = 0x00
  · subst zero
    have copied : copyWrite copy (0x00, w8) = copy := rfl
    have written : videoWrite 0x00 w8 machine =
        if w8 &&& 0x80 == 0 then machine else (0, 0) := rfl
    have nothing : (if enabled = true then copyWrite copy (0x00, w8) else copy) = copy := by
      rw [copied, ite_self]
    rw [nothing, written, same]
    by_cases bit : w8 &&& 0x80 = 0
    · rw [if_pos (beq_iff_eq.mpr bit)]
      exact iff_of_true rfl ⟨fun _ set => absurd bit set, fun _ => ⟨nofun, nofun⟩⟩
    · rw [if_neg fun clear => bit (beq_iff_eq.mp clear)]
      constructor
      · intro shown
        exact ⟨fun _ _ => shown, fun _ => ⟨nofun, nofun⟩⟩
      · intro both
        exact both.1 rfl bit
  · by_cases two : port = 0x02
    · subst two
      have scroll : copy.1 = machine.1 := congrArg Prod.snd same
      have written : videoWrite 0x02 w8 machine = (machine.1, w8) := rfl
      have copied : copyWrite copy (0x02, w8) = (copy.1, w8) := rfl
      rw [written, copied, scroll]
      cases enabled with
      | true => exact iff_of_true rfl ⟨nofun, nofun⟩
      | false =>
        rw [if_neg Bool.false_ne_true, same]
        constructor
        · intro shown
          exact ⟨nofun, fun _ => ⟨fun _ => (congrArg Prod.fst shown).symm, nofun⟩⟩
        · intro both
          exact Prod.ext ((both.2 rfl).1 rfl).symm rfl
    · by_cases three : port = 0x03
      · subst three
        have mode : (copy.2 &&& 0x10 != 0) = (machine.2 &&& 0x10 != 0) := congrArg Prod.fst same
        have written : videoWrite 0x03 w8 machine = (w8, machine.2) := rfl
        have copied : copyWrite copy (0x03, w8) = (w8, copy.2) := rfl
        rw [written, copied]
        cases enabled with
        | true => exact iff_of_true (congrArg (·, w8) mode) ⟨nofun, nofun⟩
        | false =>
          rw [if_neg Bool.false_ne_true, same]
          constructor
          · intro shown
            exact ⟨nofun, fun _ => ⟨nofun, fun _ => (congrArg Prod.snd shown).symm⟩⟩
          · intro both
            exact Prod.ext rfl ((both.2 rfl).2 rfl).symm
      · have written : videoWrite port w8 machine = machine := by
          unfold videoWrite
          rw [if_neg zero, if_neg two, if_neg three]
        have copied : copyWrite copy (port, w8) = copy := by
          unfold copyWrite
          rw [if_neg three, if_neg two]
        rw [written, copied, ite_self]
        exact iff_of_true same ⟨fun here => absurd here zero,
          fun _ => ⟨fun here => absurd here two, fun here => absurd here three⟩⟩

namespace Bus

variable {δ : Type} [Chips δ]

/-- An instruction itself leaves the two ports alone: an `OUT` only latches. -/
theorem exec_video (bus : Bus δ) (instr : Instr) : (bus.exec instr).io.video = bus.io.video := by
  have input : ∀ (io : Io δ) (port : Byte), (io.input port).2.video = io.video := by
    intro io port
    unfold Io.input
    split <;> rfl
  cases instr with
  | inPort => exact input bus.io bus.fetchByte.1
  | rcc cc | jcc cc | ccc cc =>
    unfold exec
    dsimp only
    split <;>
      simp [setCpu, readAt, readWordAt, writeAt, writeWordAt, fetchWord, skipWord, jump, push,
        pop, call]
  | _ => rfl

end Bus

namespace Board

variable {δ : Type} [Chips δ]

/-- What an instruction does to the two ports. -/
theorem singleStep_video (board : Board δ) (updateScreen : Bool) :
    (board.singleStep updateScreen).machine.io.video =
      if board.machine.opcode = 0xd3 then
        videoWrite board.machine.outWrite.1 board.machine.outWrite.2 board.machine.io.video
      else board.machine.io.video := by
  have next : board.machine.next.io.video = board.machine.io.video := by
    rw [board.machine.next_executed.2.2]
    exact board.machine.bus.fetchByte.2.exec_video (decode board.machine.opcode)
  have chips : (board.singleStep updateScreen).machine.io.video =
      (board.picturing updateScreen).1.io.video := by
    rw [(board.singleStep_pictured updateScreen).2.2]
    unfold chipsAfter
    dsimp only
    split <;> rfl
  rw [chips]
  by_cases out : board.machine.opcode = 0xd3
  · have latched := board.machine.next_latch.2.1
    rw [if_pos out] at latched ⊢
    rw [(board.singleStep_out updateScreen out).1.io, ← next]
    exact Io.commits_video board.ready.memory latched
  · rw [if_neg out, (board.singleStep_other updateScreen out).1.io]
    exact next

/-- Committed writes do to the two ports what each of them does. -/
theorem writes_video (writes : List (Byte × Byte)) (board : Board δ) :
    (writes.foldl (fun board write => (board.output write.1 write.2).commit)
        board).machine.io.video =
      writes.foldl (fun video write => videoWrite write.1 write.2 video)
        board.machine.io.video := by
  induction writes generalizing board with
  | nil => rfl
  | cons write writes inductionHypothesis =>
    rw [List.foldl_cons, List.foldl_cons, inductionHypothesis]
    exact congrArg (writes.foldl fun video write => videoWrite write.1 write.2 video)
      ((board.machine.io.output write.1 write.2).commit_video board.machine.memory)

end Board

/-- A loaded program starts with both ports at zero. -/
theorem DebugAdapter.loadRom_video {δ : Type} [Chips δ] (target : DebugAdapter δ) (path : Text)
    (org : Nat) :
    (target.loadRom path org).1.board.machine.io.video =
      if target.files path = [] then target.board.machine.io.video else (0, 0) := by
  by_cases missing : target.files path = []
  · unfold loadRom
    rw [if_pos missing, if_pos missing]
  · unfold loadRom
    dsimp only
    rw [if_neg missing, if_neg missing, Board.writes_video]
    rfl

namespace DebugBackend

variable {δ : Type} [Chips δ]

/-- The copies show what the machine holds. -/
def VideoInStep (backend : DebugBackend δ) : Prop :=
  shownVideo backend.instrumentation.video = shownVideo backend.target.board.machine.io.video

/-- The steps of a run that matter to the video mode. -/
inductive VideoAction
  /-- The machine executes an instruction. -/
  | instruction
  /-- A port write of the debugger. -/
  | writeIoPort (port w8 : Byte)
  /-- A program load. -/
  | loadRom (path : Text) (org : Nat)
  /-- A reset or a restart. -/
  | reset (attachBoot : Bool)
  /-- Anything that leaves the ports and their copies alone. -/
  | elsewhere

/-- One step of a run. -/
inductive VideoStep : DebugBackend δ → VideoAction → DebugBackend δ → Prop
  /-- The machine executes an instruction and the hooks observe it, in a frame or in a step. -/
  | instruction (backend after : DebugBackend δ) (updateScreen : Bool)
      (io : after.target.board.machine.io =
        (backend.target.board.singleStep updateScreen).machine.io)
      (hooks : after.instrumentation.video =
        (backend.instrumentation.observeAll backend.target.board.machine.events).video) :
    VideoStep backend .instruction after
  /-- `DebugAdapter::writeIoPort`. -/
  | writeIoPort (backend : DebugBackend δ) (port w8 : Byte) :
    VideoStep backend (.writeIoPort port w8)
      { backend with target := backend.target.writeIoPort port w8 }
  /-- The `LoadRom` command. -/
  | loadRom (backend : DebugBackend δ) (path : Text) (org : Nat) :
    VideoStep backend (.loadRom path org)
      { backend with target := (backend.target.loadRom path org).1 }
  /-- `DebugBackend::reset` and `DebugBackend::restart`. -/
  | reset (backend : DebugBackend δ) (attachBoot : Bool) :
    VideoStep backend (.reset attachBoot) (backend.resetTarget attachBoot)
  /-- Anything else. -/
  | elsewhere (backend after : DebugBackend δ)
      (io : after.target.board.machine.io.video = backend.target.board.machine.io.video)
      (hooks : after.instrumentation.video = backend.instrumentation.video) :
    VideoStep backend .elsewhere after

/-- A step that the copies follow: it sets the ports through the hook, or to what they show
already. -/
def KeepsVideo (backend : DebugBackend δ) : VideoAction → Prop
  | .instruction =>
    let machine := backend.target.board.machine
    machine.opcode = 0xd3 →
      (machine.outWrite.1 = 0x00 → machine.outWrite.2 &&& 0x80 ≠ 0 →
        shownVideo machine.io.video = (false, 0)) ∧
      (backend.instrumentation.instrumentationEnabled = false →
        (machine.outWrite.1 = 0x02 →
          (machine.outWrite.2 &&& 0x10 != 0) = (shownVideo machine.io.video).1) ∧
        (machine.outWrite.1 = 0x03 →
          machine.outWrite.2 = (shownVideo machine.io.video).2))
  | .loadRom path _ => backend.target.files path ≠ [] →
    shownVideo backend.target.board.machine.io.video = (false, 0)
  | .reset _ => shownVideo backend.target.board.machine.io.video = (true, 0xff)
  | .writeIoPort .. | .elsewhere => True

/-- From copies in step, a step keeps them so exactly when it is one that they follow. -/
theorem VideoStep.inStep_iff {backend after : DebugBackend δ} {action : VideoAction}
    (step : VideoStep backend action after) (inStep : backend.VideoInStep) :
    after.VideoInStep ↔ backend.KeepsVideo action := by
  cases step with
  | instruction after updateScreen io hooks =>
    unfold VideoInStep KeepsVideo
    dsimp only
    rw [io, hooks, Board.singleStep_video, Instrumentation.observeAll_video]
    by_cases out : backend.target.board.machine.opcode = 0xd3
    · have reported := backend.target.board.machine.next_latch.2.2
      rw [if_pos out] at reported ⊢
      rw [reported]
      refine (shownVideo_write inStep _ _ _).trans ⟨fun both _ => both, fun both => both out⟩
    · have reported := backend.target.board.machine.next_latch.2.2
      rw [if_neg out] at reported ⊢
      rw [reported]
      refine iff_of_true ?_ fun same => absurd same out
      exact (congrArg shownVideo (ite_self _)).trans inStep
  | writeIoPort port w8 => exact iff_of_true inStep trivial
  | loadRom path org =>
    unfold VideoInStep KeepsVideo
    dsimp only
    rw [DebugAdapter.loadRom_video]
    by_cases missing : backend.target.files path = []
    · rw [if_pos missing]
      exact iff_of_true inStep fun found => absurd missing found
    · rw [if_neg missing]
      refine Iff.trans ?_ (forall_prop_of_true missing).symm
      have copies : shownVideo backend.instrumentation.video =
          shownVideo backend.target.board.machine.io.video := inStep
      rw [copies]
      exact Iff.rfl
  | reset attachBoot =>
    have ports : (backend.resetTarget attachBoot).target.board.machine.io.video =
        backend.target.board.machine.io.video := by
      cases attachBoot <;> rfl
    have copies : (backend.resetTarget attachBoot).instrumentation.video = (0xff, 0xff) := rfl
    have shown : shownVideo (0xff, 0xff) = (true, 0xff) := by decide
    unfold VideoInStep KeepsVideo
    dsimp only
    rw [ports, copies, shown]
    exact eq_comm
  | elsewhere after io hooks =>
    refine iff_of_true ?_ trivial
    unfold VideoInStep
    rw [io, hooks]
    exact inStep

/-! ### The steps of the debugger -/

/-- `DebugBackend::stepInstruction` is such a step. -/
theorem stepInstruction_videoStep (backend : DebugBackend δ) :
    VideoStep backend .instruction backend.stepInstruction := by
  have window : (backend.instrumentation.openWindow backend.target.board.machine).video =
      backend.instrumentation.video := rfl
  have enabled : (backend.instrumentation.openWindow
      backend.target.board.machine).instrumentationEnabled =
        backend.instrumentation.instrumentationEnabled := rfl
  refine .instruction backend backend.stepInstruction true rfl ?_
  calc backend.stepInstruction.instrumentation.video
      = ((backend.instrumentation.openWindow backend.target.board.machine).observeAll
          backend.target.board.machine.events).video := by
        unfold stepInstruction Instrumentation.stepInstructionDetailed
          Instrumentation.countInstruction
        dsimp only
        split <;> rfl
    _ = (backend.instrumentation.observeAll backend.target.board.machine.events).video := by
        rw [Instrumentation.observeAll_video, Instrumentation.observeAll_video, window, enabled]

/-- Accepting an interrupt leaves the two ports alone, and reports no port write. -/
theorem beginIteration_video (board : Board δ) :
    board.beginIteration.machine.io.video = board.machine.io.video ∧
      latches board.interruptEvents = [] := by
  have ports : ∀ resumed : Board δ,
      (resumed.machine.bus.i8080Execute 0xff).2.io.video = resumed.machine.io.video := by
    intro resumed
    have counted : (resumed.machine.bus.i8080Execute 0xff).2.io =
        (resumed.machine.bus.exec (decode 0xff)).countdown.io := rfl
    rw [counted, (Bus.countdown_spec _).2.2]
    exact resumed.machine.bus.exec_video (decode 0xff)
  have quiet : ∀ resumed : Board δ,
      latches (resumed.machine.bus.i8080Execute 0xff).2.events = [] := by
    intro resumed
    have counted : (resumed.machine.bus.i8080Execute 0xff).2.events =
        (resumed.machine.bus.exec (decode 0xff)).countdown.events := rfl
    have restart : decode 0xff ≠ .outPort := by decide
    rw [counted, Bus.countdown_events]
    exact (resumed.machine.bus.exec_latch restart).2.2
  unfold Board.beginIteration Board.clearFillerIrq Board.checkInterrupt Board.acceptInterrupt
    Board.interruptEvents
  dsimp only
  split
  · refine ⟨(ports _).trans ?_, quiet _⟩
    split <;> rfl
  · exact ⟨rfl, rfl⟩

/-- The loop of `execute_frame` is a run of such steps. -/
theorem frameLoop_videoRun (fuel : Nat) :
    ∀ (backend : DebugBackend δ) (done : List (Board δ) × Board δ),
      backend.target.board.frameLoop true fuel = some done →
        ∃ actions, Transition.Run VideoStep backend actions
          { backend with
            target := { backend.target with board := done.2 }
            instrumentation := backend.instrumentation.observeAll
              (backend.target.board.frameLoopEvents true fuel) } := by
  induction fuel with
  | zero => exact fun backend done ran => nomatch ran
  | succ fuel inductionHypothesis =>
    intro backend done ran
    obtain ⟨ports, quiet⟩ := beginIteration_video backend.target.board
    have begun : ∀ interrupted : Board δ,
        interrupted.machine = backend.target.board.beginIteration.machine →
        VideoStep backend .elsewhere
          { backend with
            target := { backend.target with board := interrupted }
            instrumentation := backend.instrumentation.observeAll
              backend.target.board.interruptEvents } := by
      intro interrupted machine
      refine .elsewhere backend _ ?_ ?_
      · dsimp only
        rw [machine]
        exact ports
      · dsimp only
        rw [Instrumentation.observeAll_video, quiet]
        exact ite_self _
    unfold Board.frameLoop at ran
    unfold Board.frameLoopEvents
    dsimp only at ran ⊢
    split at ran
    · rename_i finished
      cases ran
      rw [if_pos finished]
      exact ⟨[], .nil _⟩
    · rename_i running
      rw [if_neg running]
      split at ran
      · rename_i found
        cases ran
        rw [if_pos found, List.append_nil]
        have stopped := begun
          { backend.target.board.beginIteration with debuggerInterrupt := true } rfl
        exact ⟨[.elsewhere], .cons stopped (.nil _)⟩
      · rename_i clear
        rw [if_neg clear]
        have first := begun backend.target.board.beginIteration rfl
        cases later : (backend.target.board.beginIteration.singleStep true).frameLoop true fuel with
        | none =>
          rw [later] at ran
          cases ran
        | some rest =>
          rw [later] at ran
          cases ran
          let entered : DebugBackend δ :=
            { backend with
              target := { backend.target with board := backend.target.board.beginIteration }
              instrumentation := backend.instrumentation.observeAll
                backend.target.board.interruptEvents }
          let stepped : DebugBackend δ :=
            { entered with
              target := { entered.target with board := entered.target.board.singleStep true }
              instrumentation := entered.instrumentation.observeAll
                entered.target.board.machine.events }
          have second : VideoStep entered .instruction stepped :=
            .instruction entered stepped true rfl rfl
          obtain ⟨actions, run⟩ := inductionHypothesis stepped rest later
          have events : entered.instrumentation.observeAll
              (entered.target.board.machine.events ++
                (entered.target.board.singleStep true).frameLoopEvents true fuel) =
              stepped.instrumentation.observeAll
                (stepped.target.board.frameLoopEvents true fuel) := List.foldl_append
          refine ⟨.elsewhere :: .instruction :: actions, .cons first (.cons second ?_)⟩
          have all : backend.instrumentation.observeAll (backend.target.board.interruptEvents ++
              (entered.target.board.machine.events ++
                (entered.target.board.singleStep true).frameLoopEvents true fuel)) =
              stepped.instrumentation.observeAll
                (stepped.target.board.frameLoopEvents true fuel) :=
            List.foldl_append.trans events
          rw [all]
          exact run

/-- A frame of the debugger is a run of such steps. -/
theorem executeFrame_videoRun (backend : DebugBackend δ) :
    ∃ actions, Transition.Run VideoStep backend actions backend.executeFrame.2 := by
  have ran := backend.target.executeFrame_eq
  unfold Board.executeFrame at ran
  cases stopped : backend.target.board.debuggerInterrupt with
  | true =>
    rw [stopped, if_pos rfl] at ran
    have board : backend.target.executeFrame.2.board = backend.target.board :=
      (congrArg Prod.snd (Option.some.inj ran)).symm
    have hooks : backend.executeFrame.2.instrumentation = backend.instrumentation := by
      unfold executeFrame Board.frameEvents
      dsimp only
      rw [stopped, if_pos rfl]
      rfl
    have ports : backend.executeFrame.2.target.board.machine.io.video =
        backend.target.board.machine.io.video :=
      congrArg (fun board : Board δ => board.machine.io.video) board
    have step := VideoStep.elsewhere backend backend.executeFrame.2 ports
      (congrArg Instrumentation.video hooks)
    exact ⟨[.elsewhere], .cons step (.nil _)⟩
  | false =>
    rw [stopped, if_neg Bool.false_ne_true] at ran
    let started : DebugBackend δ :=
      { backend with target := { backend.target with board := backend.target.board.startFrame } }
    obtain ⟨actions, run⟩ := frameLoop_videoRun Board.frameFuel started _ ran
    have step : VideoStep backend .elsewhere started := .elsewhere backend started rfl rfl
    refine ⟨.elsewhere :: actions, .cons step ?_⟩
    unfold executeFrame Board.frameEvents
    dsimp only
    rw [stopped, if_neg Bool.false_ne_true]
    exact run

/-- A step that the copies follow. -/
def FollowedStep (backend : DebugBackend δ) (action : VideoAction) (after : DebugBackend δ) :
    Prop :=
  VideoStep backend action after ∧ backend.KeepsVideo action

/-- In every run from a new debugger whose steps the copies follow, the video mode and the scroll
register shown are the machine's. -/
theorem videoModeSnapshot_run {chips : δ} {boot : List Byte} {files : Text → List Byte}
    {final : DebugBackend δ} {actions : List VideoAction}
    (run : Transition.Run FollowedStep (init chips boot files) actions final) :
    final.instrumentation.videoModeSnapshot.mode512 = final.target.board.machine.io.mode512 ∧
      final.instrumentation.videoModeSnapshot.scrollValue =
        final.target.board.machine.io.scrollStart := by
  have inStep : final.VideoInStep :=
    run.invariant (fun _ _ _ before step => (step.1.inStep_iff before).mpr step.2) rfl
  exact Prod.mk.inj inStep

/-- A program that writes the control word `88h` to the first adapter. -/
def controlWordProgram : DebugBackend Unit :=
  init () [0x3e, 0x88, 0xd3, 0x00] fun _ => []

/-- Its first instruction loads the word. -/
theorem videoModeSnapshot_run_first :
    controlWordProgram.stepInstruction.instrumentation.videoModeSnapshot.mode512 =
        controlWordProgram.stepInstruction.target.board.machine.io.mode512 ∧
      controlWordProgram.stepInstruction.instrumentation.videoModeSnapshot.scrollValue =
        controlWordProgram.stepInstruction.target.board.machine.io.scrollStart := by
  have other : controlWordProgram.target.board.machine.opcode ≠ 0xd3 := by decide
  have followed : FollowedStep controlWordProgram .instruction controlWordProgram.stepInstruction :=
    ⟨controlWordProgram.stepInstruction_videoStep, fun out => absurd out other⟩
  exact videoModeSnapshot_run (.cons followed (.nil _))

/-- Its second one writes it: the machine is in mode 256 with the scroll register at zero, and
the debugger shows mode 512 with the scroll register at `FFh`. -/
theorem videoModeSnapshot_controlWord :
    let after := controlWordProgram.stepInstruction.stepInstruction
    after.target.board.machine.io.outport = none ∧
      after.target.board.machine.io.mode512 = false ∧
      after.target.board.machine.io.scrollStart = 0 ∧
      after.instrumentation.videoModeSnapshot.mode512 = true ∧
      after.instrumentation.videoModeSnapshot.scrollValue = 0xff := by
  decide +kernel

end DebugBackend

end VectorDebugger

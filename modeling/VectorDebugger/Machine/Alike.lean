import VectorDebugger.Library.Transition
import VectorDebugger.Machine.FrameRun

/-!
# Boards that run alike

What an instruction does depends on the machine, the beam, the pending cycles, the carried
interrupt and on whether the tape moves. Two boards that agree on these at the head of the loop
of `execute_frame` run alike from there on, frame after frame, whatever the debugger state and
the picture are. A frame that is entered again in its middle agrees with one that goes on under
conditions that `Alike.entered_again` states.
-/

namespace VectorDebugger

/-- A beam with the interrupt signal lowered, as the loop of `execute_frame` starts a pass. -/
def Beam.lowered (beam : Beam) : Beam := { beam with irq := false }

namespace Board

variable {δ : Type} [Chips δ]

/-- The tape waits for the same frame on both boards, or for none. -/
def SameTape (board other : Board δ) : Prop :=
  board.frameNo = other.frameNo ∨ 60 < board.frameNo ∧ 60 < other.frameNo

/-- Two boards alike at the head of the loop of `execute_frame`. -/
structure Alike (board other : Board δ) : Prop where
  /-- Same machine. -/
  machine : board.machine = other.machine
  /-- Same beam, but for the signal that the loop lowers. -/
  beam : board.beam.lowered = other.beam.lowered
  /-- Same cycles waiting to be drawn. -/
  pending : board.foldLeftover.instrTime = other.foldLeftover.instrTime
  /-- An interrupt taken now costs both its cycles, or neither. -/
  fresh : board.acceptsInterrupt = true → (board.between = 0 ↔ other.between = 0)
  /-- Same last opcode. -/
  lastOpcode : board.lastOpcode = other.lastOpcode
  /-- Same carried interrupt. -/
  irqCarry : board.irqCarry = other.irqCarry
  /-- Same tape. -/
  tape : board.SameTape other

/-- Two boards alike before an instruction, after an interrupt was accepted. -/
structure Begun (board other : Board δ) : Prop where
  /-- Same machine. -/
  machine : board.machine = other.machine
  /-- Same beam. -/
  beam : board.beam = other.beam
  /-- Same cycles waiting to be drawn. -/
  pending : board.foldLeftover.instrTime = other.foldLeftover.instrTime
  /-- Same carried interrupt. -/
  irqCarry : board.irqCarry = other.irqCarry
  /-- Same tape. -/
  tape : board.SameTape other

/-- Two boards alike after an instruction. -/
structure Left (board other : Board δ) : Prop where
  /-- Same machine. -/
  machine : board.machine = other.machine
  /-- Same beam. -/
  beam : board.beam = other.beam
  /-- Same cycles spent after the end of the frame. -/
  instrTime : board.instrTime = other.instrTime
  /-- Time has passed in the frame of the first. -/
  between : 0 < board.between
  /-- And in the frame of the second. -/
  between' : 0 < other.between
  /-- Same last opcode. -/
  lastOpcode : board.lastOpcode = other.lastOpcode
  /-- Same carried interrupt. -/
  irqCarry : board.irqCarry = other.irqCarry
  /-- Same tape. -/
  tape : board.SameTape other

omit [Chips δ] in
theorem SameTape.gate {board other : Board δ} (same : board.SameTape other) :
    decide (board.frameNo > 60) = decide (other.frameNo > 60) := by
  rcases same with equal | ⟨late, late'⟩
  · rw [equal]
  · rw [decide_eq_true late, decide_eq_true late']

omit [Chips δ] in
theorem SameTape.next {board other : Board δ} (same : board.SameTape other) :
    board.frameNo + 1 = other.frameNo + 1 ∨ 60 < board.frameNo + 1 ∧ 60 < other.frameNo + 1 := by
  unfold SameTape at same
  omega

theorem acceptInterrupt_machine {board other : Board δ} (machine : board.machine = other.machine)
    (lastOpcode : board.lastOpcode = other.lastOpcode) :
    board.acceptInterrupt.machine = other.acceptInterrupt.machine := by
  unfold acceptInterrupt interrupt jump
  dsimp only
  rw [machine, lastOpcode]
  split <;> rfl

/-- What accepting an interrupt costs. -/
theorem beginIteration_time (board : Board δ) :
    board.beginIteration.instrTime =
        (if board.acceptsInterrupt then board.instrTime + 16 else board.instrTime) ∧
      board.beginIteration.between = board.between ∧
      board.beginIteration.irqCarry = board.irqCarry := by
  unfold beginIteration clearFillerIrq checkInterrupt acceptInterrupt interrupt jump
  dsimp only
  split
  · split <;> exact ⟨rfl, rfl, rfl⟩
  · exact ⟨rfl, rfl, rfl⟩

omit [Chips δ] in
theorem Alike.refl (board : Board δ) : board.Alike board :=
  ⟨rfl, rfl, rfl, fun _ => Iff.rfl, rfl, rfl, .inl rfl⟩

/-- Boards that are alike accept the same interrupt. -/
theorem Alike.begun {board other : Board δ} (same : board.Alike other) :
    board.beginIteration.Begun other.beginIteration := by
  have accepts : board.acceptsInterrupt = other.acceptsInterrupt := by
    unfold acceptsInterrupt
    rw [same.machine]
  obtain ⟨beam, frameNo, _⟩ := board.beginIteration_spec
  obtain ⟨beam', frameNo', _⟩ := other.beginIteration_spec
  obtain ⟨time, between, irqCarry⟩ := board.beginIteration_time
  obtain ⟨time', between', irqCarry'⟩ := other.beginIteration_time
  refine ⟨?_, ?_, ?_, ?_, ?_⟩
  · unfold beginIteration clearFillerIrq checkInterrupt
    dsimp only
    rw [accepts]
    split
    · exact acceptInterrupt_machine same.machine same.lastOpcode
    · exact same.machine
  · rw [beam, beam']
    exact same.beam
  · have pending := same.pending
    rw [foldLeftover_instrTime, foldLeftover_instrTime] at pending
    rw [foldLeftover_instrTime, foldLeftover_instrTime, time, time', between, between', ← accepts]
    cases accepted : board.acceptsInterrupt with
    | false => exact pending
    | true =>
      have fresh := same.fresh accepted
      by_cases start : board.between = 0
      · rw [if_pos start, if_pos (fresh.mp start)]
      · have start' : other.between ≠ 0 := fun zero => start (fresh.mpr zero)
        rw [if_neg start, if_neg start'] at pending
        rw [if_neg start, if_neg start', pending]
  · rw [irqCarry, irqCarry', same.irqCarry]
  · unfold SameTape
    rw [frameNo, frameNo']
    exact same.tape

omit [Chips δ] in
/-- The debugger state does not count. -/
theorem Alike.debugger {board other : Board δ} (same : board.Alike other)
    (debuggerInterrupt : Bool) (breakpoints : List Breakpoint) :
    board.Alike { other with debuggerInterrupt, breakpoints } := by
  have pending := same.pending
  rw [foldLeftover_instrTime, foldLeftover_instrTime] at pending
  refine ⟨same.machine, same.beam, ?_, same.fresh, same.lastOpcode, same.irqCarry, same.tape⟩
  rw [foldLeftover_instrTime, foldLeftover_instrTime]
  exact pending

omit [Chips δ] in
/-- The debugger state does not count. -/
theorem Begun.debugger {board other : Board δ} (same : board.Begun other)
    (debuggerInterrupt : Bool) (breakpoints : List Breakpoint) :
    board.Begun { other with debuggerInterrupt, breakpoints } := by
  have pending := same.pending
  rw [foldLeftover_instrTime, foldLeftover_instrTime] at pending
  refine ⟨same.machine, same.beam, ?_, same.irqCarry, same.tape⟩
  rw [foldLeftover_instrTime, foldLeftover_instrTime]
  exact pending

/-- Boards that begin an instruction alike leave it alike. -/
theorem Begun.left {board other : Board δ} (same : board.Begun other)
    (updateScreen updateScreen' : Bool) :
    (board.singleStep updateScreen).Left (other.singleStep updateScreen') := by
  have cycles : board.pendingCycles = other.pendingCycles := by
    unfold pendingCycles videoCycles
    rw [same.pending, same.machine]
  have drawing : board.drawing = other.drawing := by
    unfold Board.drawing drawn
    rw [same.machine, same.beam, cycles]
  have stepped : board.stepped = other.stepped := by
    unfold Board.stepped
    rw [same.machine, drawing, cycles, same.tape.gate]
  have request : board.request = other.request := by
    unfold Board.request
    rw [same.machine, drawing, same.irqCarry]
  have after := board.singleStep_stepOf updateScreen
  have after' := other.singleStep_stepOf updateScreen'
  refine ⟨?_, ?_, ?_, after.between, after'.between, ?_, ?_, ?_⟩
  · rw [after.machine, after'.machine, stepped, request]
  · rw [after.beam, after'.beam, drawing]
  · rw [after.instrTime, after'.instrTime, drawing]
  · rw [after.lastOpcode, after'.lastOpcode, same.machine]
  · rw [after.irqCarry, after'.irqCarry, request]
  · unfold SameTape
    rw [after.frameNo, after'.frameNo]
    exact same.tape

/-- The board at the head of the loop: a frame that has ended is followed by the next. -/
def entered (board : Board δ) : Board δ := if board.beam.brk then board.startFrame else board

omit [Chips δ] in
theorem entered_of_running (board : Board δ) (running : board.beam.brk = false) :
    board.entered = board := by
  unfold entered
  rw [running, if_neg Bool.false_ne_true]

omit [Chips δ] in
theorem entered_of_ended (board : Board δ) (ended : board.beam.brk = true) :
    board.entered = board.startFrame := by
  unfold entered
  rw [if_pos ended]

omit [Chips δ] in
/-- Two frames are entered alike. -/
theorem Left.startFrame {board other : Board δ} (same : board.Left other) :
    board.startFrame.Alike other.startFrame := by
  refine ⟨same.machine, ?_, ?_, fun _ => Iff.rfl, same.lastOpcode, rfl, same.tape.next⟩
  · unfold Board.startFrame
    dsimp only
    rw [same.beam]
  · rw [foldLeftover_instrTime, foldLeftover_instrTime]
    rfl

omit [Chips δ] in
/-- Boards left alike by an instruction come alike to the next. -/
theorem Left.entered {board other : Board δ} (same : board.Left other) :
    board.entered.Alike other.entered := by
  cases mark : other.beam.brk with
  | false =>
    rw [board.entered_of_running (by rw [same.beam, mark]), other.entered_of_running mark]
    have between := same.between
    have between' := same.between'
    refine ⟨same.machine, congrArg Beam.lowered same.beam, ?_, fun _ => by omega,
      same.lastOpcode, same.irqCarry, same.tape⟩
    rw [foldLeftover_instrTime, foldLeftover_instrTime, if_neg (by omega), if_neg (by omega),
      same.instrTime]
  | true =>
    rw [board.entered_of_ended (by rw [same.beam, mark]), other.entered_of_ended mark]
    exact same.startFrame

/-- A frame can be entered again without a trace: the beam is still on the first line, no
interrupt is being carried or about to be accepted, and the tape no longer waits. -/
structure EntersAgain (board : Board δ) : Prop where
  /-- The reset of the filler puts the beam on line zero. -/
  line : board.beam.rasterLine = 0
  /-- `execute_frame` forgets a carried interrupt. -/
  carry : board.irqCarry = false
  /-- An interrupt accepted at the start of a frame costs nothing. -/
  calm : board.acceptsInterrupt = false
  /-- `execute_frame` counts one more frame. -/
  tape : 60 < board.frameNo

omit [Chips δ] in
/-- A frame entered again against one that goes on. -/
theorem Left.entered_again {board other : Board δ} (same : board.Left other)
    (running : other.beam.brk = false) (spent : other.instrTime = 0) (again : other.EntersAgain) :
    board.Alike other.startFrame := by
  obtain ⟨line, carry, calm, tape⟩ := again
  refine ⟨same.machine, ?_, ?_, fun accepts => ?_, same.lastOpcode, ?_, ?_⟩
  · unfold Board.startFrame Beam.reset Beam.lowered
    dsimp only
    rw [same.beam]
    generalize other.beam = beam at line running
    cases beam
    simp only at line running
    subst line running
    rfl
  · have nothing : board.instrTime = 0 := by rw [same.instrTime, spent]
    rw [foldLeftover_instrTime, foldLeftover_instrTime, nothing]
    unfold Board.startFrame
    simp
  · unfold acceptsInterrupt at accepts calm
    rw [same.machine, calm] at accepts
    cases accepts
  · exact same.irqCarry.trans carry
  · right
    rcases same.tape with equal | ⟨late, _⟩
    · exact ⟨by omega, Nat.lt_succ_of_lt tape⟩
    · exact ⟨late, Nat.lt_succ_of_lt tape⟩

/-! ### Runs -/

/-- One instruction of a free run, from the head of the loop to the next head. -/
def advance (board : Board δ) : Board δ := (board.pass true).entered

/-- Two boards that execute the same instruction in the same state and leave it in the same
state, with the beam in the same place. -/
structure AgreesWith (begun other : Board δ) : Prop where
  /-- Same machine, and so the same instruction, before. -/
  before : begun.machine = other.machine
  /-- Same processor, memory, ports and interrupt lines after. -/
  after : (begun.singleStep true).machine = (other.singleStep true).machine
  /-- Same line after. -/
  line : (begun.singleStep true).beam.rasterLine = (other.singleStep true).beam.rasterLine
  /-- Same pixel after. -/
  pixel : (begun.singleStep true).beam.rasterPixel = (other.singleStep true).beam.rasterPixel

theorem Begun.agrees {board other : Board δ} (same : board.Begun other) :
    board.AgreesWith other := by
  have left := same.left true true
  exact ⟨same.machine, left.machine, by rw [left.beam], by rw [left.beam]⟩

theorem AgreesWith.symm {begun other : Board δ} (agree : begun.AgreesWith other) :
    other.AgreesWith begun :=
  ⟨agree.before.symm, agree.after.symm, agree.line.symm, agree.pixel.symm⟩

theorem AgreesWith.trans {first second third : Board δ} (left : first.AgreesWith second)
    (right : second.AgreesWith third) : first.AgreesWith third :=
  ⟨left.before.trans right.before, left.after.trans right.after, left.line.trans right.line,
    left.pixel.trans right.pixel⟩

/-- The listed instructions are those of a free run, in order. -/
def Follows (board : Board δ) (executed : List (Board δ)) : Prop :=
  ∀ i, ∀ below : i < executed.length,
    (advance^[i] board).beginIteration.AgreesWith executed[i]

theorem Follows.nil (board : Board δ) : board.Follows [] := fun _ below => nomatch below

theorem Follows.cons {board begun : Board δ} {executed : List (Board δ)}
    (first : board.beginIteration.AgreesWith begun) (rest : board.advance.Follows executed) :
    board.Follows (begun :: executed) := by
  intro i below
  cases i with
  | zero => exact first
  | succ i => exact rest i (Nat.lt_of_succ_lt_succ below)

theorem Follows.append {board : Board δ} {front back : List (Board δ)}
    (first : board.Follows front) (second : (advance^[front.length] board).Follows back) :
    board.Follows (front ++ back) := by
  intro i below
  by_cases early : i < front.length
  · rw [List.getElem_append_left early]
    exact first i early
  · have late : front.length ≤ i := Nat.le_of_not_lt early
    rw [List.getElem_append_right late]
    have there := second (i - front.length) (by rw [List.length_append] at below; omega)
    rw [← Function.iterate_add_apply, Nat.sub_add_cancel late] at there
    exact there

/-- The instructions of a frame are those of a free run that starts alike. -/
theorem FrameRun.follows {start after board : Board δ} {executed : List (Board δ)}
    (run : FrameRun true start executed after) (running : start.beam.brk = false)
    (same : board.Alike start) :
    board.Follows executed ∧
      (advance^[executed.length] board).Alike ((pass true)^[executed.length] start).entered := by
  have along : ∀ i ≤ executed.length,
      (advance^[i] board).Alike ((pass true)^[i] start).entered := by
    intro i
    induction i with
    | zero =>
      intro _
      rw [Function.iterate_zero_apply, Function.iterate_zero_apply,
        start.entered_of_running running]
      exact same
    | succ i inductionHypothesis =>
      intro within
      have here := inductionHypothesis (Nat.le_of_succ_le within)
      rw [entered_of_running _ (run.goesOn i within).lasts] at here
      rw [Function.iterate_succ_apply', Function.iterate_succ_apply']
      exact (here.begun.left true true).entered
  refine ⟨fun i below => ?_, along executed.length (Nat.le_refl _)⟩
  have here := along i (Nat.le_of_lt below)
  rw [entered_of_running _ (run.goesOn i below).lasts] at here
  have listed : executed[i] = ((pass true)^[i] start).beginIteration := by
    have member : executed[i]? =
        ((List.range executed.length).map fun i =>
          ((pass true)^[i] start).beginIteration)[i]? := by
      rw [← run.passes]
    rw [List.getElem?_eq_getElem below, List.getElem?_map, List.getElem?_range below] at member
    exact Option.some.inj member
  rw [listed]
  exact here.begun.agrees

/-- A frame that the debugger does not hold ends at its end, or at a breakpoint within it. -/
theorem FrameRun.stop {start after : Board δ} {executed : List (Board δ)}
    (run : FrameRun true start executed after) (free : start.debuggerInterrupt = false) :
    after = (pass true)^[executed.length] start ∧ after.beam.brk = true ∨
      ∃ head, head = (pass true)^[executed.length] start ∧ head.beam.brk = false ∧
        head.stopsAtBreakpoint = true ∧
        after = { head.beginIteration with debuggerInterrupt := true } := by
  have released := (iterate_pass_debugger true start executed.length).2.1.trans free
  have ends := run.ends
  generalize (pass true)^[executed.length] start = head at ends released
  cases ends with
  | frame done =>
    left
    rw [released] at done
    exact ⟨rfl, done.resolve_right Bool.false_ne_true⟩
  | breakpoint lasts _ found => exact .inr ⟨head, rfl, lasts, found, rfl⟩

/-- Without breakpoints, a frame executes every instruction up to its end. -/
theorem FrameRun.length_gt {start after : Board δ} {executed : List (Board δ)}
    (run : FrameRun true start executed after) (unset : start.breakpoints = [])
    (free : start.debuggerInterrupt = false) (count : Nat)
    (running : ∀ i ≤ count, ((pass true)^[i] start).beam.brk = false) :
    count < executed.length := by
  by_contra short
  rcases run.stop free with ⟨whole, ended⟩ | ⟨head, headEq, _, found, _⟩
  · rw [whole, running _ (Nat.le_of_not_lt short)] at ended
    cases ended
  · unfold stopsAtBreakpoint checkBreakpoint at found
    rw [head.beginIteration_spec.2.2.2.2, headEq,
      (iterate_pass_debugger true start executed.length).2.2, unset, List.contains_nil,
      Bool.and_false] at found
    cases found

/-- `count` calls of `execute_frame` in a row, with the board at each instruction executed. -/
def runFrames : Nat → Board δ → List (Board δ) × Board δ
  | 0, board => ([], board)
  | count + 1, board =>
    let done := (board.executeFrame true).get (board.executeFrame_isSome true)
    let rest := runFrames count done.2
    (done.1 ++ rest.1, rest.2)

/-- Without breakpoints, frames in a row are a free run. -/
theorem runFrames_follows (count : Nat) :
    ∀ {board start : Board δ}, start.breakpoints = [] → start.debuggerInterrupt = false →
      board.Alike start.startFrame → board.Follows (runFrames count start).1 := by
  induction count with
  | zero => exact fun _ _ _ => .nil _
  | succ count inductionHypothesis =>
    intro board start unset free same
    unfold runFrames
    dsimp only
    have ran : start.executeFrame true =
        some ((start.executeFrame true).get (start.executeFrame_isSome true)) :=
      (Option.some_get _).symm
    generalize (start.executeFrame true).get (start.executeFrame_isSome true) = done at ran
    have run := start.executeFrame_spec true free done ran
    obtain ⟨follows, next⟩ := run.follows rfl same
    obtain ⟨_, interrupt, breakpoints⟩ :=
      iterate_pass_debugger true start.startFrame done.1.length
    apply follows.append
    rcases run.stop free with ⟨whole, ended⟩ | ⟨head, headEq, _, found, _⟩
    · rw [← whole, entered_of_ended _ ended] at next
      rw [← whole] at interrupt breakpoints
      exact inductionHypothesis (breakpoints.trans unset) (interrupt.trans free) next
    · unfold stopsAtBreakpoint checkBreakpoint at found
      rw [head.beginIteration_spec.2.2.2.2, headEq, breakpoints] at found
      unfold Board.startFrame at found
      dsimp only at found
      rw [unset, List.contains_nil, Bool.and_false] at found
      cases found

theorem runFrames_length {start : Board δ} (unset : start.breakpoints = [])
    (free : start.debuggerInterrupt = false) (count : Nat)
    (running : ∀ i ≤ count, ((pass true)^[i] start.startFrame).beam.brk = false) :
    count < (runFrames 1 start).1.length := by
  have ran : start.executeFrame true =
      some ((start.executeFrame true).get (start.executeFrame_isSome true)) :=
    (Option.some_get _).symm
  have run := start.executeFrame_spec true free _ ran
  unfold runFrames
  dsimp only
  rw [List.length_append]
  exact Nat.lt_add_right _ (run.length_gt unset free count running)

end Board

end VectorDebugger

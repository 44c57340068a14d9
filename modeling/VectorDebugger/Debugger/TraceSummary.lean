import VectorDebugger.Debugger.TraceFunction
import VectorDebugger.Debugger.Xrefs

/-!
# Calls and returns of a trace

After a trace, `traceFunction` goes through the recorded opcodes to find the functions called and
the call depth. It counts every call opcode, whether the call was taken or not, and one return
opcode of ten. What happened is in the records too: the flags that a condition tested, and the
program counter after the instruction.
-/

namespace VectorDebugger

/-! ### What is computed -/

namespace InstructionEvent

/-- The targets that the opcode of an event adds to `calledSet`. -/
def calledTargets (ev : InstructionEvent) : List Word :=
  (if isCallOpcode ev.opcode && ev.length == 3 then [wordOf ev.operandBytes.1 ev.operandBytes.2]
    else []) ++
  if isRstOpcode ev.opcode then [BitVec.ofNat 16 (ev.opcode &&& 0x38).toNat] else []

/-- `depth` after an event. -/
def depthAfter (depth : Int) (ev : InstructionEvent) : Int :=
  let entered := if isCallOpcode ev.opcode || isRstOpcode ev.opcode then depth + 1 else depth
  if ev.opcode = 0xc9 then entered - 1 else entered

end InstructionEvent

/-- The events of the history that belong to a trace. -/
def tracedEvents (history : List InstructionEvent) (trace : TraceExecutionResult) :
    List InstructionEvent :=
  history.filter fun ev => trace.startSequence ≤ ev.sequence && ev.sequence < trace.endSequence

/-- `result.calledFunctions`. -/
def calledFunctions (events : List InstructionEvent) : List Word :=
  ((events.flatMap (·.calledTargets)).dedup).insertionSort fun a b => a.toNat ≤ b.toNat

/-- `result.callDepth`. -/
def callDepth (events : List InstructionEvent) : Int :=
  events.foldl InstructionEvent.depthAfter 0

/-! ### What happened -/

namespace InstructionEvent

/-- The event is a call or restart that was taken: the flags before it met its condition. -/
def CallTaken (ev : InstructionEvent) : Prop :=
  match decode ev.opcode with
  | .call | .rst _ => True
  | .ccc cc => ev.before.flags.test cc = true
  | _ => False

/-- The event is a return that was taken. -/
def ReturnTaken (ev : InstructionEvent) : Prop :=
  match decode ev.opcode with
  | .ret => True
  | .rcc cc => ev.before.flags.test cc = true
  | _ => False

instance (ev : InstructionEvent) : Decidable ev.CallTaken := by
  unfold CallTaken
  split <;> infer_instance

instance (ev : InstructionEvent) : Decidable ev.ReturnTaken := by
  unfold ReturnTaken
  split <;> infer_instance

/-- The opcode counts as a call in `callDepth`. -/
def CountedCall (ev : InstructionEvent) : Prop :=
  (isCallOpcode ev.opcode || isRstOpcode ev.opcode) = true

instance (ev : InstructionEvent) : Decidable ev.CountedCall :=
  inferInstanceAs (Decidable (_ = true))

/-- The call went where its record says. -/
def Straight (ev : InstructionEvent) : Prop := ev.CallTaken ∧ ev.after.pc ∈ ev.calledTargets

end InstructionEvent

/-- The addresses that the calls of a trace entered. -/
def Entered (events : List InstructionEvent) (addr : Word) : Prop :=
  ∃ ev ∈ events, ev.CallTaken ∧ ev.after.pc = addr

/-- The addresses that the calls of a trace name. -/
def Named (events : List InstructionEvent) (addr : Word) : Prop :=
  ∃ ev ∈ events, addr ∈ ev.calledTargets

/-- The summary says what happened. -/
structure SummaryExact (events : List InstructionEvent) : Prop where
  /-- The called functions are the addresses entered. -/
  called : ∀ addr, addr ∈ calledFunctions events ↔ Entered events addr
  /-- The depth is the number of taken calls less that of taken returns. -/
  depth : callDepth events =
    (events.countP fun ev => ev.CallTaken) - (events.countP fun ev => ev.ReturnTaken)

/-- The calls not taken and the taken returns that are not counted make up for the taken calls
that are not counted; what a call names without entering it is entered by another; what a call
enters without naming it is named by another. -/
structure Unmistaken (events : List InstructionEvent) : Prop where
  /-- The counts of what `callDepth` mistakes balance. -/
  balanced : (events.countP fun ev => ev.CountedCall ∧ ¬ev.CallTaken) +
      (events.countP fun ev => ev.ReturnTaken ∧ ev.opcode ≠ 0xc9) =
    events.countP fun ev => ev.CallTaken ∧ ¬ev.CountedCall
  /-- Names of calls that did not go there are entered all the same. -/
  named : ∀ ev ∈ events, ¬ev.Straight → ∀ addr ∈ ev.calledTargets, Entered events addr
  /-- Where calls went that did not name it is named all the same. -/
  entered : ∀ ev ∈ events, ev.CallTaken → ¬ev.Straight → Named events ev.after.pc

/-! ### When the summary is exact -/

section Summary

variable {events : List InstructionEvent}

/-- An event names one target at most. -/
theorem InstructionEvent.eq_of_mem_calledTargets {ev : InstructionEvent} {addr other : Word}
    (first : addr ∈ ev.calledTargets) (second : other ∈ ev.calledTargets) : addr = other := by
  have apart : ∀ opcode : Byte, isCallOpcode opcode = true → isRstOpcode opcode = false := by
    decide
  unfold calledTargets at first second
  cases call : isCallOpcode ev.opcode with
  | true =>
    rw [apart ev.opcode call, if_neg Bool.false_ne_true, List.append_nil] at first second
    split_ifs at first second
    · rw [List.mem_singleton.mp first, List.mem_singleton.mp second]
    · cases first
  | false =>
    rw [call, Bool.false_and, if_neg Bool.false_ne_true, List.nil_append] at first second
    split_ifs at first second
    · rw [List.mem_singleton.mp first, List.mem_singleton.mp second]
    · cases first

/-- An event that names a target is counted as a call. -/
theorem InstructionEvent.countedCall_of_mem {ev : InstructionEvent} {addr : Word}
    (listed : addr ∈ ev.calledTargets) : ev.CountedCall := by
  unfold calledTargets at listed
  unfold CountedCall
  rw [Bool.or_eq_true]
  rcases List.mem_append.mp listed with call | restart
  · split_ifs at call with isCall
    · exact Or.inl (Bool.and_eq_true_iff.mp isCall).1
    · cases call
  · split_ifs at restart with isRst
    · exact Or.inr isRst
    · cases restart

theorem mem_calledFunctions (addr : Word) :
    addr ∈ calledFunctions events ↔ Named events addr := by
  unfold calledFunctions Named
  rw [List.mem_insertionSort, List.mem_dedup, List.mem_flatMap]

/-- The names of a trace are the addresses entered when what its calls mistake is made up for. -/
theorem named_iff_entered : (∀ addr, Named events addr ↔ Entered events addr) ↔
    (∀ ev ∈ events, ¬ev.Straight → ∀ addr ∈ ev.calledTargets, Entered events addr) ∧
      ∀ ev ∈ events, ev.CallTaken → ¬ev.Straight → Named events ev.after.pc := by
  constructor
  · intro same
    exact ⟨fun ev listed _ addr named => (same addr).mp ⟨ev, listed, named⟩,
      fun ev listed taken _ => (same ev.after.pc).mpr ⟨ev, listed, taken, rfl⟩⟩
  · rintro ⟨named, entered⟩ addr
    constructor
    · rintro ⟨ev, listed, target⟩
      by_cases straight : ev.Straight
      · exact ⟨ev, listed, straight.1,
          InstructionEvent.eq_of_mem_calledTargets straight.2 target⟩
      · exact named ev listed straight addr target
    · rintro ⟨ev, listed, taken, rfl⟩
      by_cases straight : ev.Straight
      · exact ⟨ev, listed, straight.2⟩
      · exact entered ev listed taken straight

/-- By how much the depth is mistaken: one up for a call not taken and for a return that is not
counted, one down for a call that is not counted. -/
theorem foldl_depthAfter (events : List InstructionEvent) : ∀ depth : Int,
    events.foldl InstructionEvent.depthAfter depth = depth +
      ((events.countP fun ev => ev.CallTaken) - (events.countP fun ev => ev.ReturnTaken)) +
      ((events.countP fun ev => ev.CountedCall ∧ ¬ev.CallTaken) +
        (events.countP fun ev => ev.ReturnTaken ∧ ev.opcode ≠ 0xc9) -
          (events.countP fun ev => ev.CallTaken ∧ ¬ev.CountedCall)) := by
  induction events with
  | nil =>
    intro depth
    simp
  | cons ev events inductionHypothesis =>
    intro depth
    have return' : ev.opcode = 0xc9 → ev.ReturnTaken := by
      intro opcode
      have decoded : decode 0xc9 = .ret := by decide
      unfold InstructionEvent.ReturnTaken
      rw [opcode, decoded]
      trivial
    have after : ev.depthAfter depth = depth + (if ev.CountedCall then 1 else 0) -
        if ev.opcode = 0xc9 then 1 else 0 := by
      unfold InstructionEvent.depthAfter
      dsimp only
      by_cases plain : ev.opcode = 0xc9
      · rw [if_pos plain, if_pos plain]
        by_cases counted : ev.CountedCall
        · rw [if_pos counted]
          exact congrArg (· - 1) (if_pos counted)
        · rw [if_neg counted, Int.add_zero]
          exact congrArg (· - 1) (if_neg counted)
      · rw [if_neg plain, if_neg plain, Int.sub_zero]
        by_cases counted : ev.CountedCall
        · rw [if_pos counted]
          exact if_pos counted
        · rw [if_neg counted, Int.add_zero]
          exact if_neg counted
    rw [List.foldl_cons, inductionHypothesis, after]
    simp only [List.countP_cons, decide_eq_true_eq, Nat.cast_add, Nat.cast_ite, Nat.cast_one,
      Nat.cast_zero]
    by_cases counted : ev.CountedCall <;> by_cases taken : ev.CallTaken <;>
      by_cases returned : ev.ReturnTaken <;> by_cases plain : ev.opcode = 0xc9 <;>
      first
      | exact absurd (return' plain) returned
      | (simp only [counted, taken, returned, plain, not_true_eq_false, not_false_eq_true,
          and_true, and_false, ne_eq, if_true, if_false]
         omega)

/-- The summary of a trace is exact when what it mistakes is made up for, and only then. -/
theorem summaryExact_iff (history : List InstructionEvent) (trace : TraceExecutionResult) :
    SummaryExact (tracedEvents history trace) ↔ Unmistaken (tracedEvents history trace) := by
  generalize tracedEvents history trace = events
  have depth : callDepth events = _ := foldl_depthAfter events 0
  have names := @named_iff_entered events
  constructor
  · rintro ⟨called, counted⟩
    rw [depth] at counted
    obtain ⟨named, entered⟩ :=
      names.mp fun addr => (mem_calledFunctions addr).symm.trans (called addr)
    exact ⟨by omega, named, entered⟩
  · rintro ⟨balanced, named, entered⟩
    refine ⟨fun addr => (mem_calledFunctions addr).trans (names.mpr ⟨named, entered⟩ addr), ?_⟩
    rw [depth]
    omega

/-- In a trace whose taken calls are all counted and go where their records say, the summary is
exact just when every counted call is taken and no return but `RET` is. -/
theorem unmistaken_of_straight (straight : ∀ ev ∈ events, ev.CallTaken → ev.Straight) :
    Unmistaken events ↔ (∀ ev ∈ events, ev.CountedCall → ev.CallTaken) ∧
      ∀ ev ∈ events, ev.ReturnTaken → ev.opcode = 0xc9 := by
  have uncounted : (events.countP fun ev => ev.CallTaken ∧ ¬ev.CountedCall) = 0 := by
    rw [List.countP_eq_zero]
    intro ev listed
    rw [decide_eq_true_eq, not_and_not_right]
    exact fun taken => InstructionEvent.countedCall_of_mem (straight ev listed taken).2
  constructor
  · rintro ⟨balanced, -, -⟩
    rw [uncounted, Nat.add_eq_zero_iff, List.countP_eq_zero, List.countP_eq_zero] at balanced
    refine ⟨fun ev listed counted => ?_, fun ev listed returned => ?_⟩
    · by_contra missed
      exact balanced.1 ev listed (decide_eq_true ⟨counted, missed⟩)
    · by_contra other
      exact balanced.2 ev listed (decide_eq_true ⟨returned, other⟩)
  · rintro ⟨calls, returns⟩
    refine ⟨?_, fun ev listed crooked addr named => ?_, fun ev listed taken crooked => ?_⟩
    · rw [uncounted, Nat.add_eq_zero_iff, List.countP_eq_zero, List.countP_eq_zero]
      refine ⟨fun ev listed => ?_, fun ev listed => ?_⟩
      · rw [decide_eq_true_eq, not_and_not_right]
        exact calls ev listed
      · rw [decide_eq_true_eq, not_and_not_right]
        exact returns ev listed
    · exact absurd (straight ev listed
        (calls ev listed (InstructionEvent.countedCall_of_mem named))) crooked
    · exact absurd (straight ev listed taken) crooked

end Summary

/-- A `CNZ 1234h` that is not taken, since the zero flag is set. -/
def untakenCall : InstructionEvent :=
  let cpu := (Board.powerOn () []).machine.cpu
  { sequence := 0, opcode := 0xc4, length := 3, operandBytes := (0x34, 0x12)
    before := { cpu with pc := 0x0100, flags := { cpu.flags with zero := true } }
    after := { cpu with pc := 0x0103, flags := { cpu.flags with zero := true } } }

/-- The trace of one instruction. -/
def oneStep : TraceExecutionResult := { TraceExecutionResult.default with endSequence := 1 }

/-- The call is listed although it was not taken. -/
theorem summary_untakenCall : ¬SummaryExact (tracedEvents [untakenCall] oneStep) := by
  intro exact'
  have depth := exact'.depth
  revert depth
  decide

end VectorDebugger

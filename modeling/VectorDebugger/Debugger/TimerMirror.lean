import VectorDebugger.Debugger.SoundMirror
import VectorDebugger.Machine.LatchedCount

/-!
# The mirror of the timer

The load values and modes that the sound window shows are decoded from the same writes that the
timer receives. The decoder knows no latch command, no decimal digits and no reads, and takes a
third bit of the mode; a run that avoids these differences keeps the two together.
-/

namespace VectorDebugger

namespace CounterUnit

/-- The word that a write completes, if it completes one. -/
def completes (ctr : CounterUnit) (w8 : Byte) : Option Word :=
  if ctr.latchMode = 3 then
    if ctr.writeState = 1 then some (wordOf ctr.writeLsb w8) else none
  else if ctr.latchMode = 1 then some (w8.setWidth 16)
  else if ctr.latchMode = 2 then some (wordOf 0 w8)
  else none

/-- The bytes of a write, before the digits are converted. -/
def written (ctr : CounterUnit) (w8 : Byte) : CounterUnit :=
  if ctr.latchMode = 3 then
    match ctr.writeState with
    | 0 => { ctr with writeLsb := w8, writeState := 1 }
    | 1 =>
      { ctr with
        writeMsb := w8, writeState := 0, loadvalue := wordOf ctr.writeLsb w8, load := true }
    | _ => ctr
  else if ctr.latchMode = 1 then { ctr with loadvalue := w8.setWidth 16, load := true }
  else if ctr.latchMode = 2 then
    { ctr with value := (wordOf 0 w8).toNat, loadvalue := wordOf 0 w8, load := true }
  else ctr

/-- The conversion of the digits of a load. -/
def settled (ctr : CounterUnit) : CounterUnit :=
  if ctr.load then
    { ctr with
      loadvalue := if ctr.bcd then frombcd ctr.loadvalue else ctr.loadvalue
      delay := ctr.loadDelay }
  else ctr

theorem writeValue_eq (ctr : CounterUnit) (w8 : Byte) :
    ctr.writeValue w8 = (ctr.written w8).settled := rfl

/-- A word of one decimal digit is its own value. -/
theorem frombcd_digit {x : Word} (digit : x.toNat < 10) : frombcd x = x := by
  have digits : ∀ n < 10, frombcd (BitVec.ofNat 16 n) = BitVec.ofNat 16 n := by decide
  have same : BitVec.ofNat 16 x.toNat = x := BitVec.eq_of_toNat_eq (by simp)
  rw [← same]
  exact digits _ digit

/-- A load that waits has one decimal digit, when digits are decimal. -/
def OneDigit (ctr : CounterUnit) : Prop :=
  ctr.load = true → ctr.bcd = true → ctr.loadvalue.toNat < 10

/-- The conversion of one digit changes nothing but the delay. -/
theorem settled_of_oneDigit {ctr : CounterUnit} (digit : ctr.OneDigit) :
    ∃ delay, ctr.settled = { ctr with delay } := by
  unfold settled
  split
  · rename_i load
    cases bcd : ctr.bcd with
    | false => exact ⟨_, by rw [if_neg Bool.false_ne_true, ← bcd]⟩
    | true =>
      refine ⟨ctr.loadDelay, ?_⟩
      rw [if_pos rfl, frombcd_digit (digit load bcd), ← bcd]
  · exact ⟨ctr.delay, rfl⟩

end CounterUnit

namespace SoundMirror

/-- The mirror of one counter agrees with it. -/
structure Follows (mirror : SoundMirror) (index : Fin 3) (ctr : CounterUnit) : Prop where
  load : mirror.timerLoadValues index = ctr.loadvalue
  mode : mirror.timerModes index = ctr.modeInt
  toggle : mirror.timerWriteStates index < 2
  lsb : mirror.timerWriteStates index = 1 → mirror.timerWriteLsb index = ctr.writeLsb
  digit : ctr.OneDigit

/-- A control word that the decoder understands: for a counter that is there, and either a mode
without its third bit or a latch command that repeats the mode. -/
structure TracksControl (timer : I8253) (value : Byte) : Prop where
  inside : ((value >>> 6) &&& 3).toNat < 3
  mode : ((value >>> 1) &&& 7).toNat =
    if ((value >>> 4) &&& 3).toNat = 0 then
      (timer.counters ⟨((value >>> 6) &&& 3).toNat, inside⟩).modeInt
    else ((value >>> 1) &&& 3).toNat

/-- A load that the decoder understands: of a counter that has had no latch command since its
control word, has been read an even number of times in two-byte access, and counts decimal digits
only if one of them is enough. -/
structure TracksLoad (mirror : SoundMirror) (index : Fin 3) (ctr : CounterUnit) (value : Byte) :
    Prop where
  access : mirror.timerLatchModes index = ctr.latchMode
  toggle : ctr.latchMode = 3 → mirror.timerWriteStates index = ctr.writeState
  digit : ctr.bcd = true → ∀ word ∈ ctr.completes value, word.toNat < 10

variable {mirror : SoundMirror} {index : Fin 3} {ctr other : CounterUnit}

/-- Counting leaves what the mirror follows. -/
theorem Follows.alike (follows : mirror.Follows index ctr) (alike : ctr.Alike other) :
    mirror.Follows index other := by
  refine ⟨follows.load.trans alike.loadvalue.symm, follows.mode.trans alike.modeInt.symm,
    follows.toggle, fun second => (follows.lsb second).trans alike.writeLsb.symm, ?_⟩
  intro load bcd
  rw [alike.loadvalue]
  exact follows.digit (alike.load load) (alike.bcd.symm.trans bcd)

/-- Reading a counter leaves what the mirror follows. -/
theorem Follows.readValue (follows : mirror.Follows index ctr) :
    mirror.Follows index ctr.readValue.1 := by
  unfold CounterUnit.readValue
  split
  · exact ⟨follows.load, follows.mode, follows.toggle, follows.lsb, follows.digit⟩
  · exact ⟨follows.load, follows.mode, follows.toggle, follows.lsb, follows.digit⟩
  · split
    · exact ⟨follows.load, follows.mode, follows.toggle, follows.lsb, follows.digit⟩
    · exact ⟨follows.load, follows.mode, follows.toggle, follows.lsb, follows.digit⟩
    · exact follows
  · exact follows

/-- A word that both complete. -/
theorem Follows.loaded (follows : mirror.Follows index ctr) {word : Word}
    (digit : ctr.bcd = true → word.toNat < 10) :
    (mirror.loaded index word).Follows index { ctr with loadvalue := word, load := true } :=
  ⟨Function.update_self .., follows.mode, follows.toggle, follows.lsb, fun _ => digit⟩

/-- The bytes of a load that the decoder understands. -/
theorem Follows.written (follows : mirror.Follows index ctr) {value : Byte}
    (tracks : TracksLoad mirror index ctr value) :
    (mirror.watchCounter index value).Follows index (ctr.written value) := by
  have digit := tracks.digit
  unfold SoundMirror.watchCounter CounterUnit.written
  unfold CounterUnit.completes at digit
  dsimp only
  rw [tracks.access]
  by_cases two : ctr.latchMode = 3
  · have toggle := tracks.toggle two
    have small := follows.toggle
    rw [if_pos two, if_pos two]
    rw [if_pos two] at digit
    obtain first | second : ctr.writeState = 0 ∨ ctr.writeState = 1 := by omega
    · rw [toggle, first, if_pos rfl]
      refine ⟨follows.load, follows.mode, ?_, ?_, follows.digit⟩
      · show Function.update mirror.timerWriteStates index 1 index < 2
        rw [Function.update_self]
        decide
      · exact fun _ => Function.update_self ..
    · have lsb := follows.lsb (toggle.trans second)
      rw [toggle, second, if_neg Nat.one_ne_zero, lsb]
      rw [if_pos second] at digit
      have complete := follows.loaded fun bcd => digit bcd _ rfl
      refine ⟨complete.load, complete.mode, ?_, ?_, complete.digit⟩
      · show Function.update mirror.timerWriteStates index 0 index < 2
        rw [Function.update_self]
        decide
      · intro again
        change Function.update mirror.timerWriteStates index 0 index = 1 at again
        rw [Function.update_self] at again
        cases again
  · rw [if_neg two, if_neg two]
    rw [if_neg two] at digit
    by_cases low : ctr.latchMode = 1
    · rw [if_pos low, if_pos low]
      rw [if_pos low] at digit
      exact follows.loaded fun bcd => digit bcd _ rfl
    · rw [if_neg low, if_neg low]
      rw [if_neg low] at digit
      by_cases high : ctr.latchMode = 2
      · rw [if_pos high, if_pos high]
        rw [if_pos high] at digit
        have complete := follows.loaded fun bcd => digit bcd _ rfl
        exact ⟨complete.load, complete.mode, complete.toggle, complete.lsb, complete.digit⟩
      · rw [if_neg high, if_neg high]
        exact follows

/-- A load that the decoder understands. -/
theorem Follows.watchCounter (follows : mirror.Follows index ctr) {value : Byte}
    (tracks : TracksLoad mirror index ctr value) :
    (mirror.watchCounter index value).Follows index (ctr.writeValue value) := by
  have bytes := follows.written tracks
  obtain ⟨delay, converted⟩ := CounterUnit.settled_of_oneDigit bytes.digit
  rw [CounterUnit.writeValue_eq, converted]
  exact ⟨bytes.load, bytes.mode, bytes.toggle, bytes.lsb, bytes.digit⟩

/-- A write of one counter leaves the mirror of the others. -/
theorem watchCounter_other (mirror : SoundMirror) {index other : Fin 3} (ne : other ≠ index)
    (value : Byte) (follows : mirror.Follows other ctr) :
    (mirror.watchCounter index value).Follows other ctr := by
  have kept : (mirror.watchCounter index value).timerLoadValues other =
        mirror.timerLoadValues other ∧
      (mirror.watchCounter index value).timerModes other = mirror.timerModes other ∧
      (mirror.watchCounter index value).timerWriteStates other =
        mirror.timerWriteStates other ∧
      (mirror.watchCounter index value).timerWriteLsb other = mirror.timerWriteLsb other := by
    unfold SoundMirror.watchCounter SoundMirror.loaded
    dsimp only
    split_ifs <;> simp [Function.update_of_ne ne]
  obtain ⟨load, mode, toggle, lsb⟩ := kept
  refine ⟨load.trans follows.load, mode.trans follows.mode, ?_, ?_, follows.digit⟩
  · rw [toggle]
    exact follows.toggle
  · rw [toggle, lsb]
    exact follows.lsb

/-- The counters of the timer, each followed by the mirror. -/
def FollowsAll (mirror : SoundMirror) (timer : I8253) : Prop :=
  ∀ index, mirror.Follows index (timer.counters index)

/-- A counter after a control word, when its mirror takes the mode and starts over. -/
theorem Follows.control (follows : mirror.Follows index ctr) (latchSet modeSet mode : Nat)
    (bcd : Bool) (after : SoundMirror) (small : modeSet < 4)
    (same : mode = if latchSet = 0 then ctr.modeInt else modeSet)
    (load : after.timerLoadValues index = mirror.timerLoadValues index)
    (taken : after.timerModes index = mode) (reset : after.timerWriteStates index = 0) :
    after.Follows index (if latchSet = 0 then ctr.latch else ctr.setMode modeSet latchSet bcd) := by
  have counted := follows.alike ctr.tick_alike
  have toggle : after.timerWriteStates index < 2 := by
    rw [reset]
    decide
  have lsb : ∀ {byte : Byte}, after.timerWriteStates index = 1 →
      after.timerWriteLsb index = byte := by
    intro byte second
    rw [reset] at second
    cases second
  by_cases latched : latchSet = 0
  · rw [if_pos latched] at same ⊢
    refine ⟨load.trans counted.load, ?_, toggle, lsb, counted.digit⟩
    exact taken.trans (same.trans ctr.tick_alike.modeInt.symm)
  · rw [if_neg latched] at same ⊢
    refine ⟨load.trans counted.load, ?_, toggle, lsb, nofun⟩
    rw [taken, same]
    show modeSet = if modeSet % 4 = 2 then 2 else if modeSet % 4 = 3 then 3 else modeSet
    split_ifs <;> omega

/-- A control word that the decoder understands. -/
theorem FollowsAll.watchControl {timer : I8253} (follows : mirror.FollowsAll timer) {value : Byte}
    (tracks : TracksControl timer value) :
    ∃ after, timer.writeCw value = some after ∧
      (mirror.watchControl value).FollowsAll after := by
  obtain ⟨inside, mode⟩ := tracks
  have two : ((value >>> 1) &&& 3).toNat < 4 := by
    rw [BitVec.toNat_and]
    exact lt_of_le_of_lt Nat.and_le_right (by decide)
  unfold I8253.writeCw I8253.update SoundMirror.watchControl
  dsimp only
  rw [dif_pos inside, dif_pos inside]
  refine ⟨_, rfl, ?_⟩
  intro other
  by_cases same : other = ⟨((value >>> 6) &&& 3).toNat, inside⟩
  · rw [← same] at mode ⊢
    show Follows _ _ (Function.update timer.counters other _ other)
    rw [Function.update_self]
    exact (follows other).control _ _ _ _ _ two mode rfl (Function.update_self ..)
      (Function.update_self ..)
  · show Follows _ _ (Function.update timer.counters _ _ other)
    rw [Function.update_of_ne same]
    have before := follows other
    refine ⟨before.load, ?_, ?_, ?_, before.digit⟩
    · show Function.update mirror.timerModes _ _ other = _
      rw [Function.update_of_ne same]
      exact before.mode
    · show Function.update mirror.timerWriteStates _ _ other < 2
      rw [Function.update_of_ne same]
      exact before.toggle
    · show Function.update mirror.timerWriteStates _ _ other = 1 → _
      rw [Function.update_of_ne same]
      exact before.lsb

/-- A load that the decoder understands. -/
theorem FollowsAll.watchCounter {timer : I8253} (follows : mirror.FollowsAll timer)
    {index : Fin 3} {value : Byte}
    (tracks : TracksLoad mirror index (timer.counters index) value) :
    (mirror.watchCounter index value).FollowsAll
      { timer with
        counters :=
          Function.update timer.counters index ((timer.counters index).writeValue value) } := by
  intro other
  by_cases same : other = index
  · subst same
    show Follows _ _ (Function.update timer.counters other _ other)
    rw [Function.update_self]
    exact (follows other).watchCounter tracks
  · show Follows _ _ (Function.update timer.counters index _ other)
    rw [Function.update_of_ne same]
    exact watchCounter_other mirror same value (follows other)

/-- The mirror after an access. -/
def hear (mirror : SoundMirror) : TimerAccess → SoundMirror
  | .write port w8 => mirror.onwrite (TimerAccess.portNumber port) w8
  | .read _ | .step => mirror

/-- The decoder understands an access. -/
def Tracks (mirror : SoundMirror) (timer : I8253) : TimerAccess → Prop
  | .write 0 w8 => TracksControl timer w8
  | .write 1 w8 => TracksLoad mirror 2 (timer.counters 2) w8
  | .write 2 w8 => TracksLoad mirror 1 (timer.counters 1) w8
  | .write 3 w8 => TracksLoad mirror 0 (timer.counters 0) w8
  | .read _ | .step => True

/-- A read of one counter. -/
theorem FollowsAll.readCounter {timer : I8253} (follows : mirror.FollowsAll timer)
    (index : Fin 3) :
    mirror.FollowsAll
      { timer with
        counters :=
          Function.update timer.counters index (timer.counters index).readValue.1 } := by
  intro other
  by_cases same : other = index
  · subst same
    show Follows _ _ (Function.update timer.counters other _ other)
    rw [Function.update_self]
    exact (follows other).readValue
  · show Follows _ _ (Function.update timer.counters index _ other)
    rw [Function.update_of_ne same]
    exact follows other

/-- An access that the decoder understands keeps the mirror. -/
theorem FollowsAll.hear {io : Io (Option I8253)} {timer : I8253} (there : io.chips = some timer)
    (follows : mirror.FollowsAll timer) (access : TimerAccess)
    (tracks : mirror.Tracks timer access) :
    ∃ after, (TimerAccess.perform io access).chips = some after ∧
      (mirror.hear access).FollowsAll after := by
  cases access with
  | step =>
    refine ⟨timer.count, TimerAccess.perform_step there, ?_⟩
    exact fun index => (follows index).alike (timer.counters index).tick_alike
  | read port =>
    have read := TimerAccess.perform_read there port
    fin_cases port
    · exact ⟨timer, read, follows⟩
    · exact ⟨_, read, follows.readCounter 2⟩
    · exact ⟨_, read, follows.readCounter 1⟩
    · exact ⟨_, read, follows.readCounter 0⟩
  | write port w8 =>
    have written := TimerAccess.perform_write there port w8
    fin_cases port
    · obtain ⟨after, done, followed⟩ := follows.watchControl tracks
      exact ⟨after, written.trans done, followed⟩
    · exact ⟨_, written, follows.watchCounter tracks⟩
    · exact ⟨_, written, follows.watchCounter tracks⟩
    · exact ⟨_, written, follows.watchCounter tracks⟩

/-- One access of a run whose accesses the decoder understands. -/
inductive TrackedStep : Io (Option I8253) × SoundMirror → Io (Option I8253) × SoundMirror → Prop
  | /-- An access to a port, or a step of the sound. -/
    access (io : Io (Option I8253)) (mirror : SoundMirror) (timer : I8253)
      (there : io.chips = some timer) (access : TimerAccess) (tracks : mirror.Tracks timer access) :
    TrackedStep (io, mirror) (TimerAccess.perform io access, mirror.hear access)

/-- In every run of reads, writes and steps of the sound that the decoder understands, the load
values and modes of the sound window are those of the three counters. -/
theorem mirror_timer (io : Io (Option I8253)) {final : Io (Option I8253) × SoundMirror}
    (run : Relation.ReflTransGen TrackedStep ({ io with chips := some .init }, .init) final) :
    ∃ timer, final.1.chips = some timer ∧ ∀ index,
      final.2.timerLoadValues index = (timer.counters index).loadvalue ∧
        final.2.timerModes index = (timer.counters index).modeInt := by
  have followed : ∃ timer, final.1.chips = some timer ∧ final.2.FollowsAll timer := by
    induction run with
    | refl => exact ⟨.init, rfl, fun index => ⟨rfl, rfl, Nat.two_pos, nofun, nofun⟩⟩
    | tail _ step inductionHypothesis =>
      obtain ⟨timer, there, follows⟩ := inductionHypothesis
      cases step with
      | access io mirror found there' access tracks =>
        have same : found = timer := Option.some.inj (there'.symm.trans there)
        exact follows.hear there access (same ▸ tracks)
  obtain ⟨timer, there, follows⟩ := followed
  exact ⟨timer, there, fun index => ⟨(follows index).load, (follows index).mode⟩⟩

/-- A control word for mode 3 of the first counter. -/
theorem mirror_timer_control :
    ∃ timer, (TimerAccess.perform { Io.init (none : Option I8253) with chips := some .init }
        (.write 0 0x36)).chips = some timer ∧ ∀ index,
      (SoundMirror.init.hear (.write 0 0x36)).timerLoadValues index =
          (timer.counters index).loadvalue ∧
        (SoundMirror.init.hear (.write 0 0x36)).timerModes index =
          (timer.counters index).modeInt :=
  mirror_timer (.init none) (.single (.access _ _ .init rfl (.write 0 0x36) ⟨by decide, rfl⟩))

/-- A latch command changes the mode in the mirror alone. -/
theorem latch_not_mirrored : ¬ ∀ (io : Io (Option I8253)) (accesses : List TimerAccess),
    (∀ access ∈ accesses, access.Selects) →
      ∃ timer, (accesses.foldl TimerAccess.perform { io with chips := some .init }).chips =
          some timer ∧ ∀ index,
        (accesses.foldl SoundMirror.hear .init).timerLoadValues index =
            (timer.counters index).loadvalue ∧
          (accesses.foldl SoundMirror.hear .init).timerModes index =
            (timer.counters index).modeInt := by
  intro mirrored
  obtain ⟨timer, there, same⟩ := mirrored (.init none) [.write 0 0x36, .write 0 0x00] (by
    intro access member
    simp only [List.mem_cons, List.not_mem_nil, or_false] at member
    rcases member with rfl | rfl
    · exact fun _ => by decide
    · exact fun _ => by decide)
  have modes := (same 0).2
  have found : (timer.counters 0).modeInt = 3 := by
    cases there
    rfl
  rw [found] at modes
  exact absurd modes (by decide)

end SoundMirror

end VectorDebugger

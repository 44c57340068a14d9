import Mathlib.Data.List.Basic
import Mathlib.Data.List.Infix
import Mathlib.Logic.Function.Basic

/-!
# Sound buffers

The emulation writes samples into one of eight buffers, and the callback of the audio device takes
one buffer at a time. Equal indices mean that no complete buffer waits; the callback then plays what
the current one holds so far and pads it with the last value.
-/

namespace VectorDebugger

variable {α : Type}

/-- `Soundnik::NBUFFERS`. -/
def nbuffers : Nat := 8

/-- `sound_frame_size`, as `init` sets it: 48000 / 50. -/
def soundFrameSize : Nat := 960

/-- The buffers of `Soundnik`. -/
structure Soundnik (α : Type) where
  /-- `buffer`. -/
  buffer : Nat → Nat → α
  /-- `wrptr`. -/
  wrptr : Nat
  /-- `wrbuf`. -/
  wrbuf : Nat
  /-- `rdbuf`. -/
  rdbuf : Nat
  /-- `last_value`. -/
  lastValue : α

/-- What a callback writes to its stream. -/
structure Delivery (α : Type) where
  /-- What it copies from a buffer. -/
  samples : List α
  /-- The last value, repeated to the end of the frame. -/
  padding : List α

namespace Soundnik

/-- `Soundnik::pause`. -/
def pause (snd : Soundnik α) : Soundnik α := { snd with wrptr := 0, rdbuf := 0, wrbuf := 0 }

/-- One cell of a buffer is written. -/
def store (buffer : Nat → Nat → α) (buf ptr : Nat) (samp : α) : Nat → Nat → α :=
  Function.update buffer buf (Function.update (buffer buf) ptr samp)

/-- `Soundnik::sample`. -/
def sample (snd : Soundnik α) (samp : α) : Soundnik α :=
  let buffer := store (store snd.buffer snd.wrbuf snd.wrptr samp) snd.wrbuf (snd.wrptr + 1) samp
  let wrptr := snd.wrptr + 2
  if wrptr ≥ soundFrameSize * 2 then
    { snd with
      lastValue := samp, buffer, wrptr := 0
      wrbuf := if snd.wrbuf + 1 = nbuffers then 0 else snd.wrbuf + 1 }
  else { snd with lastValue := samp, buffer, wrptr }

/-- `memcpy` from the front of a buffer. -/
def front (snd : Soundnik α) (buf count : Nat) : List α := (List.range count).map (snd.buffer buf)

/-- `Soundnik::callback`, for a stream of one frame. -/
def callback (snd : Soundnik α) : Delivery α × Soundnik α :=
  if snd.rdbuf = snd.wrbuf then
    ({ samples := snd.front snd.rdbuf snd.wrptr
       padding := List.replicate (soundFrameSize * 2 - snd.wrptr) snd.lastValue },
      { snd with wrptr := 0 })
  else
    ({ samples := snd.front snd.rdbuf (soundFrameSize * 2), padding := [] },
      { snd with rdbuf := if snd.rdbuf + 1 = nbuffers then 0 else snd.rdbuf + 1 })

end Soundnik

/-- A call of either side; each holds the lock of the device. -/
inductive SoundCall (α : Type)
  /-- `sample`. -/
  | sample (samp : α)
  /-- `callback`. -/
  | callback

/-- A run of the two sides, with what was produced and played so far. -/
structure SoundRun (α : Type) where
  /-- The buffers. -/
  snd : Soundnik α
  /-- The samples that were produced. -/
  produced : List α
  /-- What the device got, without padding. -/
  played : List α
  /-- The complete buffers that were produced and not taken. -/
  waiting : Nat

namespace SoundRun

/-- Playing starts after a `pause`. -/
def start (snd : Soundnik α) : SoundRun α where
  snd := snd.pause
  produced := []
  played := []
  waiting := 0

/-- One call. A buffer is complete when the samples so far fill it. -/
def step (run : SoundRun α) : SoundCall α → SoundRun α
  | .sample samp =>
    { run with
      snd := run.snd.sample samp
      produced := run.produced ++ [samp]
      waiting :=
        if run.snd.wrptr + 2 ≥ soundFrameSize * 2 then run.waiting + 1 else run.waiting }
  | .callback =>
    { run with
      snd := run.snd.callback.2
      played := run.played ++ run.snd.callback.1.samples
      waiting := run.waiting - 1 }

/-- Some calls. -/
def steps (run : SoundRun α) (calls : List (SoundCall α)) : SoundRun α := calls.foldl step run

end SoundRun

/-- Both channels of some samples. -/
def stereo (samples : List α) : List α := samples.flatMap fun samp => [samp, samp]

theorem stereo_concat (samples : List α) (samp : α) :
    stereo (samples ++ [samp]) = stereo samples ++ [samp, samp] := by
  unfold stereo
  rw [List.flatMap_append]
  rfl

namespace Soundnik

/-- The indices and the pointer are in range, and `waiting` buffers are between the indices. -/
structure Placed (snd : Soundnik α) (waiting : Nat) : Prop where
  rdbuf : snd.rdbuf < 8
  few : waiting < 8
  wrbuf : snd.wrbuf = (snd.rdbuf + waiting) % 8
  wrptr : ∃ fill < soundFrameSize, snd.wrptr = 2 * fill

/-- What has not been taken: the complete buffers in the order of their indices, and the current
one as far as it is written. -/
def queued (snd : Soundnik α) (waiting : Nat) : List α :=
  ((List.range waiting).flatMap fun k =>
      snd.front ((snd.rdbuf + k) % 8) (soundFrameSize * 2)) ++
    snd.front snd.wrbuf snd.wrptr

theorem store_other (buffer : Nat → Nat → α) {buf other : Nat} (different : other ≠ buf)
    (ptr : Nat) (samp : α) : store buffer buf ptr samp other = buffer other :=
  Function.update_of_ne different _ _

/-- A sample extends what is written of the current buffer. -/
theorem front_stored (snd : Soundnik α) (samp : α) :
    (List.range (snd.wrptr + 2)).map
        (store (store snd.buffer snd.wrbuf snd.wrptr samp) snd.wrbuf (snd.wrptr + 1) samp
          snd.wrbuf) =
      snd.front snd.wrbuf snd.wrptr ++ [samp, samp] := by
  unfold store front
  rw [Function.update_self, Function.update_self, List.range_succ, List.range_succ,
    List.map_append, List.map_append, List.append_assoc]
  congr 1
  · refine List.map_congr_left fun i inside => ?_
    have below := List.mem_range.mp inside
    rw [Function.update_of_ne (by omega), Function.update_of_ne (by omega)]
  · rw [List.map_singleton, List.map_singleton, Function.update_self,
      Function.update_of_ne (by omega), Function.update_self]
    rfl

/-- A sample is appended to what is queued, unless its buffer is the eighth that is complete. -/
theorem Placed.sample {snd : Soundnik α} {waiting : Nat} (placed : snd.Placed waiting) (samp : α) :
    let complete := snd.wrptr + 2 ≥ soundFrameSize * 2
    (complete ∧ waiting = 7 → (snd.sample samp).Placed 0 ∧ (snd.sample samp).queued 0 = []) ∧
      (¬ (complete ∧ waiting = 7) →
        (snd.sample samp).Placed (if complete then waiting + 1 else waiting) ∧
          (snd.sample samp).queued (if complete then waiting + 1 else waiting) =
            snd.queued waiting ++ [samp, samp]) := by
  dsimp only
  obtain ⟨fill, inside, wrptr⟩ := placed.wrptr
  have rdbuf := placed.rdbuf
  have few := placed.few
  have wrbuf := placed.wrbuf
  have stored := front_stored snd samp
  have blocks : ∀ k < waiting, (List.range (soundFrameSize * 2)).map
      (store (store snd.buffer snd.wrbuf snd.wrptr samp) snd.wrbuf (snd.wrptr + 1) samp
        ((snd.rdbuf + k) % 8)) = snd.front ((snd.rdbuf + k) % 8) (soundFrameSize * 2) := by
    intro k below
    have different : (snd.rdbuf + k) % 8 ≠ snd.wrbuf := by omega
    rw [store_other _ different, store_other _ different]
    rfl
  have advanced : (if snd.wrbuf + 1 = nbuffers then 0 else snd.wrbuf + 1) =
      (snd.rdbuf + (waiting + 1)) % 8 := by
    unfold nbuffers
    split <;> omega
  by_cases complete : snd.wrptr + 2 ≥ soundFrameSize * 2
  · have whole : snd.wrptr + 2 = soundFrameSize * 2 := by omega
    rw [whole] at stored
    have after : snd.sample samp =
        { snd with
          lastValue := samp
          buffer := store (store snd.buffer snd.wrbuf snd.wrptr samp) snd.wrbuf (snd.wrptr + 1) samp
          wrptr := 0
          wrbuf := if snd.wrbuf + 1 = nbuffers then 0 else snd.wrbuf + 1 } := if_pos complete
    have start : ∃ fill < soundFrameSize, 0 = 2 * fill := ⟨0, by decide, rfl⟩
    constructor
    · rintro ⟨-, last⟩
      rw [after]
      refine ⟨⟨rdbuf, by omega, ?_, start⟩, rfl⟩
      dsimp only
      rw [advanced, last]
      omega
    · intro room
      rw [if_pos complete, after]
      refine ⟨⟨rdbuf, by omega, advanced, start⟩, ?_⟩
      unfold queued
      dsimp only
      rw [List.range_succ, List.flatMap_append, List.append_assoc, List.append_assoc]
      refine congrArg₂ (· ++ ·) ?_ ?_
      · refine List.flatMap_congr fun k listed => ?_
        exact blocks k (List.mem_range.mp listed)
      · rw [List.flatMap_singleton, ← wrbuf, ← stored]
        exact List.append_nil _
  · have after : snd.sample samp =
        { snd with
          lastValue := samp
          buffer := store (store snd.buffer snd.wrbuf snd.wrptr samp) snd.wrbuf (snd.wrptr + 1) samp
          wrptr := snd.wrptr + 2 } := if_neg complete
    refine ⟨fun both => absurd both.1 complete, fun _ => ?_⟩
    rw [if_neg complete, after]
    refine ⟨⟨rdbuf, few, wrbuf, ⟨fill + 1, by omega, by dsimp only; omega⟩⟩, ?_⟩
    unfold queued
    dsimp only
    rw [List.append_assoc, ← stored]
    refine congrArg (· ++ _) ?_
    refine List.flatMap_congr fun k listed => ?_
    exact blocks k (List.mem_range.mp listed)

/-- A callback takes the front of what is queued. -/
theorem Placed.callback {snd : Soundnik α} {waiting : Nat} (placed : snd.Placed waiting) :
    snd.callback.2.Placed (waiting - 1) ∧
      snd.queued waiting = snd.callback.1.samples ++ snd.callback.2.queued (waiting - 1) := by
  have rdbuf := placed.rdbuf
  have few := placed.few
  have wrbuf := placed.wrbuf
  cases waiting with
  | zero =>
    have equal : snd.rdbuf = snd.wrbuf := by omega
    unfold Soundnik.callback
    rw [if_pos equal]
    refine ⟨⟨rdbuf, by omega, wrbuf, ⟨0, by decide, rfl⟩⟩, ?_⟩
    unfold queued
    dsimp only
    rw [equal]
    exact (List.append_nil _).symm
  | succ waiting =>
    have different : snd.rdbuf ≠ snd.wrbuf := by omega
    have advanced : (if snd.rdbuf + 1 = nbuffers then 0 else snd.rdbuf + 1) =
        (snd.rdbuf + 1) % 8 := by
      unfold nbuffers
      split <;> omega
    have rest : ((List.range waiting).flatMap fun k =>
          snd.front ((snd.rdbuf + (k + 1)) % 8) (soundFrameSize * 2)) =
        (List.range waiting).flatMap fun k =>
          snd.front (((snd.rdbuf + 1) % 8 + k) % 8) (soundFrameSize * 2) := by
      refine List.flatMap_congr fun k _ => ?_
      have place : (snd.rdbuf + (k + 1)) % 8 = ((snd.rdbuf + 1) % 8 + k) % 8 := by omega
      rw [place]
    unfold Soundnik.callback
    rw [if_neg different, Nat.add_sub_cancel, advanced]
    refine ⟨⟨by dsimp only; omega, by omega, by dsimp only; omega, placed.wrptr⟩, ?_⟩
    unfold queued
    dsimp only
    rw [List.range_succ_eq_map, List.flatMap_cons, List.flatMap_map, List.append_assoc,
      Nat.add_zero, Nat.mod_eq_of_lt rdbuf]
    exact congrArg (fun later => snd.front snd.rdbuf (soundFrameSize * 2) ++
      (later ++ snd.front snd.wrbuf snd.wrptr)) rest

theorem placed_pause (snd : Soundnik α) : snd.pause.Placed 0 :=
  ⟨Nat.succ_pos 7, Nat.succ_pos 7, rfl, ⟨0, by decide, rfl⟩⟩

end Soundnik

namespace SoundRun

/-- Nothing is out of order or twice, and as long as eight buffers never waited nothing is lost. -/
structure InOrder (run : SoundRun α) (waiting : Nat) : Prop where
  placed : run.snd.Placed waiting
  sublist : (run.played ++ run.snd.queued waiting).Sublist (stereo run.produced)

/-- A call keeps the order. -/
theorem InOrder.step {run : SoundRun α} {waiting : Nat} (ordered : run.InOrder waiting)
    (call : SoundCall α) : ∃ waiting, (run.step call).InOrder waiting := by
  cases call with
  | sample samp =>
    obtain ⟨eighth, room⟩ := ordered.placed.sample samp
    by_cases last : run.snd.wrptr + 2 ≥ soundFrameSize * 2 ∧ waiting = 7
    · obtain ⟨placed, none⟩ := eighth last
      refine ⟨0, placed, ?_⟩
      show (run.played ++ (run.snd.sample samp).queued 0).Sublist (stereo (run.produced ++ [samp]))
      rw [none, List.append_nil, stereo_concat]
      exact ((List.sublist_append_left _ _).trans ordered.sublist).trans
        (List.sublist_append_left _ _)
    · obtain ⟨placed, more⟩ := room last
      refine ⟨_, placed, ?_⟩
      show (run.played ++ (run.snd.sample samp).queued _).Sublist (stereo (run.produced ++ [samp]))
      rw [more, stereo_concat, ← List.append_assoc]
      exact ordered.sublist.append (List.Sublist.refl _)
  | callback =>
    obtain ⟨placed, front⟩ := ordered.placed.callback
    refine ⟨waiting - 1, placed, ?_⟩
    show ((run.played ++ run.snd.callback.1.samples) ++ run.snd.callback.2.queued _).Sublist _
    rw [List.append_assoc, ← front]
    exact ordered.sublist

/-- With fewer than eight buffers waiting, everything that was produced is played or queued. -/
structure Complete (run : SoundRun α) : Prop where
  placed : run.snd.Placed run.waiting
  all : run.played ++ run.snd.queued run.waiting = stereo run.produced

/-- A call loses nothing unless it completes the eighth buffer that waits. -/
theorem Complete.step {run : SoundRun α} (complete : run.Complete) (call : SoundCall α)
    (few : (run.step call).waiting < nbuffers) : (run.step call).Complete := by
  cases call with
  | sample samp =>
    have room : ¬ (run.snd.wrptr + 2 ≥ soundFrameSize * 2 ∧ run.waiting = 7) := by
      rintro ⟨full, seven⟩
      have next : (run.step (.sample samp)).waiting = run.waiting + 1 := if_pos full
      rw [next, seven] at few
      exact absurd few (by decide)
    obtain ⟨placed, more⟩ := (complete.placed.sample samp).2 room
    refine ⟨placed, ?_⟩
    show run.played ++ (run.snd.sample samp).queued _ = stereo (run.produced ++ [samp])
    rw [stereo_concat, ← complete.all, List.append_assoc, ← more]
    rfl
  | callback =>
    obtain ⟨placed, front⟩ := complete.placed.callback
    refine ⟨placed, ?_⟩
    show (run.played ++ run.snd.callback.1.samples) ++
      run.snd.callback.2.queued (run.waiting - 1) = _
    rw [List.append_assoc, ← front]
    exact complete.all

theorem steps_concat (run : SoundRun α) (calls : List (SoundCall α)) (call : SoundCall α) :
    run.steps (calls ++ [call]) = (run.steps calls).step call := by
  unfold steps
  rw [List.foldl_concat]

/-- Every run keeps the order. -/
theorem inOrder_steps (snd : Soundnik α) (calls : List (SoundCall α)) :
    ∃ waiting, ((start snd).steps calls).InOrder waiting := by
  induction calls using List.reverseRecOn with
  | nil => exact ⟨0, snd.placed_pause, List.Sublist.refl _⟩
  | append_singleton calls call inductionHypothesis =>
    obtain ⟨waiting, ordered⟩ := inductionHypothesis
    rw [steps_concat]
    exact ordered.step call

/-- A run in which eight buffers never wait loses nothing. -/
theorem complete_steps (snd : Soundnik α) (calls : List (SoundCall α))
    (few : ∀ before after, calls = before ++ after →
      ((start snd).steps before).waiting < nbuffers) :
    ((start snd).steps calls).Complete := by
  induction calls using List.reverseRecOn with
  | nil => exact ⟨snd.placed_pause, rfl⟩
  | append_singleton calls call inductionHypothesis =>
    have now := few (calls ++ [call]) [] (List.append_nil _).symm
    rw [steps_concat] at now ⊢
    refine (inductionHypothesis fun before after whole => ?_).step call now
    exact few before (after ++ [call]) (by rw [whole, List.append_assoc])

end SoundRun

end VectorDebugger

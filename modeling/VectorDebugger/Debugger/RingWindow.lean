import VectorDebugger.Debugger.RingBuffer

/-!
# The ring buffer as a window

Whatever is pushed and cleared, the buffer holds the last items since the last `clear`, as many as
it has room for, and its three accessors agree on them.
-/

namespace VectorDebugger

/-- A call that changes a ring buffer. -/
inductive RingCall (α : Type)
  /-- `push`. -/
  | push (item : α)
  /-- `clear`. -/
  | clear

namespace RingCall

variable {α : Type} {capacity : Nat}

/-- One call. -/
def apply (ring : RingBuffer α capacity) : RingCall α → RingBuffer α capacity
  | .push item => ring.push item
  | .clear => ring.clear

/-- A buffer as constructed, after some calls. -/
def run (capacity : Nat) (calls : List (RingCall α)) : RingBuffer α capacity :=
  calls.foldl apply .empty

/-- One call, seen from the items that were pushed since the last `clear`. -/
def note (items : List α) : RingCall α → List α
  | .push item => items ++ [item]
  | .clear => []

/-- The items that were pushed since the last `clear`. -/
def sinceClear (calls : List (RingCall α)) : List α := calls.foldl note []

end RingCall

namespace RingBuffer

variable {α : Type} {capacity : Nat}

/-- `RingBuffer::operator[]`. -/
def get (ring : RingBuffer α capacity) (index : Nat) : Option α :=
  let start := if ring.count < capacity then 0 else ring.head
  ring.buf ((start + index) % capacity)

/-- A buffer as constructed holds nothing. -/
theorem holds_empty (positive : 0 < capacity) : (empty : RingBuffer α capacity).Holds [] where
  capacity_pos := positive
  count := (Nat.zero_min _).symm
  head := (Nat.zero_mod _).symm
  cells := fun i _ below => absurd below (Nat.not_lt_zero i)

/-- A call keeps what the buffer holds in step with the items. -/
theorem Holds.apply {ring : RingBuffer α capacity} {items : List α} (held : ring.Holds items)
    (call : RingCall α) : (call.apply ring).Holds (call.note items) := by
  cases call with
  | push item => exact held.push item
  | clear => exact holds_clear ring held.capacity_pos

/-- Calls in a row keep it too. -/
theorem Holds.foldl {calls : List (RingCall α)} :
    ∀ {ring : RingBuffer α capacity} {items : List α}, ring.Holds items →
      (calls.foldl RingCall.apply ring).Holds (calls.foldl RingCall.note items) := by
  induction calls with
  | nil => exact fun held => held
  | cons call calls inductionHypothesis =>
    intro ring items held
    exact inductionHypothesis (held.apply call)

/-- A snapshot of full length has skipped no cell. -/
theorem map_some_snapshot {ring : RingBuffer α capacity}
    (full : ring.snapshot.length = ring.count) :
    ring.snapshot.map some = (List.range ring.count).map ring.get := by
  have present : ∀ i ∈ List.range ring.count, (ring.get i).isSome = true := by
    refine List.filterMap_length_eq_length.mp ?_
    rw [List.length_range]
    exact full
  have skips : ∀ indices : List Nat, (∀ i ∈ indices, (ring.get i).isSome = true) →
      (indices.filterMap ring.get).map some = indices.map ring.get := by
    intro indices
    induction indices with
    | nil => exact fun _ => rfl
    | cons i indices inductionHypothesis =>
      intro all
      obtain ⟨item, found⟩ := Option.isSome_iff_exists.mp (all i List.mem_cons_self)
      rw [List.filterMap_cons_some found, List.map_cons, List.map_cons, found,
        inductionHypothesis fun j listed => all j (List.mem_cons_of_mem i listed)]
  exact skips _ present

/-- The ring buffer is a sliding window: its size, its snapshot and its elements are those of the
last items since the last `clear`. -/
theorem slidingWindow (positive : 0 < capacity) (calls : List (RingCall α)) :
    let ring := RingCall.run capacity calls
    let items := RingCall.sinceClear calls
    ring.count = min items.length capacity ∧
      ring.snapshot = items.drop (items.length - ring.count) ∧
      ∀ i < ring.count, (ring.get i).isSome ∧ ring.get i = ring.snapshot[i]? := by
  have held : (RingCall.run capacity calls).Holds (RingCall.sinceClear calls) :=
    (holds_empty positive).foldl
  dsimp only
  generalize RingCall.run capacity calls = ring at held
  generalize RingCall.sinceClear calls = items at held
  have count := held.count
  have window := held.snapshot
  have length : ring.snapshot.length = ring.count := by
    rw [window, List.length_drop]
    omega
  have cells := map_some_snapshot length
  refine ⟨count, ?_, ?_⟩
  · rw [window]
    have same : items.length - capacity = items.length - ring.count := by omega
    rw [same]
  · intro i below
    have inside : i < ring.snapshot.length := by omega
    have here := congrArg (fun list => list[i]?) cells
    simp only [List.getElem?_map, List.getElem?_range below, List.getElem?_eq_getElem inside,
      Option.map_some, Option.some.injEq] at here
    rw [← here, List.getElem?_eq_getElem inside]
    exact ⟨rfl, rfl⟩

/-- A full buffer of two that has moved on by one item. -/
theorem slidingWindow_wrapped :
    (RingCall.run 2 [.push 'a', .clear, .push 'b', .push 'c', .push 'd']).snapshot = ['c', 'd'] :=
  (slidingWindow Nat.two_pos [.push 'a', .clear, .push 'b', .push 'c', .push 'd']).2.1

end RingBuffer

end VectorDebugger

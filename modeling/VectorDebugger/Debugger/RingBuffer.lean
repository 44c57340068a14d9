import Mathlib.Data.List.Basic
import Mathlib.Logic.Function.Basic
import Mathlib.Tactic.Common

/-!
# Ring buffer

`RingBuffer` — a fixed-capacity queue whose oldest element is overwritten when it is full.
The class is generic in the source and stays generic here. Its mutex makes each method
atomic and has no counterpart.
-/

namespace VectorDebugger

/-- `RingBuffer<T>` with the capacity given to its constructor. -/
structure RingBuffer (α : Type) (capacity : Nat) where
  /-- `buf_`. -/
  buf : Nat → Option α
  /-- `head_` — the cell written next. -/
  head : Nat
  /-- `count_`. -/
  count : Nat

namespace RingBuffer

variable {α : Type} {capacity : Nat}

/-- An empty buffer, as constructed. -/
def empty : RingBuffer α capacity where
  buf := fun _ => none
  head := 0
  count := 0

/-- `RingBuffer::push`. -/
def push (ring : RingBuffer α capacity) (item : α) : RingBuffer α capacity where
  buf := Function.update ring.buf ring.head (some item)
  head := (ring.head + 1) % capacity
  count := if ring.count < capacity then ring.count + 1 else ring.count

/-- `RingBuffer::clear`. -/
def clear (ring : RingBuffer α capacity) : RingBuffer α capacity :=
  { ring with head := 0, count := 0 }

/-- `RingBuffer::snapshot` — what is kept, oldest first. -/
def snapshot (ring : RingBuffer α capacity) : List α :=
  let start := if ring.count < capacity then 0 else ring.head
  (List.range ring.count).filterMap fun i => ring.buf ((start + i) % capacity)

/-- The buffer holds the last items of a history, as many as it has room for. -/
structure Holds (ring : RingBuffer α capacity) (items : List α) : Prop where
  /-- There is room for an item. -/
  capacity_pos : 0 < capacity
  /-- Items are counted up to the capacity. -/
  count : ring.count = min items.length capacity
  /-- The cell written next. -/
  head : ring.head = items.length % capacity
  /-- The item numbered `i` is in its cell until `capacity` more are pushed. -/
  cells : ∀ i, items.length ≤ i + capacity → i < items.length →
    ring.buf (i % capacity) = items[i]?

/-- A cleared buffer holds nothing, whatever its cells still contain. -/
theorem holds_clear (ring : RingBuffer α capacity) (positive : 0 < capacity) :
    ring.clear.Holds [] := by
  refine ⟨positive, (Nat.zero_min _).symm, (Nat.zero_mod _).symm, ?_⟩
  intro i _ below
  exact absurd below (Nat.not_lt_zero i)

/-- A push adds its item to the history. -/
theorem Holds.push {ring : RingBuffer α capacity} {items : List α} (held : ring.Holds items)
    (item : α) : (ring.push item).Holds (items ++ [item]) := by
  have positive := held.capacity_pos
  have length : (items ++ [item]).length = items.length + 1 := List.length_append
  refine ⟨positive, ?_, ?_, ?_⟩
  · rw [length]
    unfold RingBuffer.push
    dsimp only
    rw [held.count]
    split <;> omega
  · rw [length]
    unfold RingBuffer.push
    dsimp only
    rw [held.head, Nat.mod_add_mod]
  · intro i recent below
    rw [length] at recent below
    unfold RingBuffer.push
    dsimp only
    rw [held.head]
    by_cases last : i = items.length
    · rw [last, Function.update_self, List.getElem?_concat_length]
    · have inside : i < items.length := by omega
      have apart : i % capacity ≠ items.length % capacity := by
        intro same
        have gap : (items.length - i) % capacity = 0 :=
          Nat.sub_mod_eq_zero_of_mod_eq same.symm
        rw [Nat.mod_eq_of_lt (by omega)] at gap
        omega
      rw [Function.update_of_ne apart, held.cells i (by omega) inside,
        List.getElem?_append_left inside]

/-- The snapshot is the end of the history. -/
theorem Holds.snapshot {ring : RingBuffer α capacity} {items : List α} (held : ring.Holds items) :
    ring.snapshot = items.drop (items.length - capacity) := by
  have positive := held.capacity_pos
  have first : items.length - capacity + ring.count = items.length := by
    rw [held.count]
    omega
  have cell : ∀ i < ring.count,
      ring.buf (((if ring.count < capacity then 0 else ring.head) + i) % capacity) =
        items[items.length - capacity + i]? := by
    intro i below
    have count := held.count
    rw [← held.cells (items.length - capacity + i) (by omega) (by omega)]
    split
    · have none : items.length - capacity = 0 := by omega
      rw [none]
    · have full : items.length = items.length - capacity + capacity := by omega
      rw [held.head, Nat.mod_add_mod]
      have shift : items.length + i = items.length - capacity + i + capacity := by omega
      rw [shift, Nat.add_mod_right]
  have all : (List.range (items.drop (items.length - capacity)).length).map
      (fun i => (items.drop (items.length - capacity))[i]?) =
        (items.drop (items.length - capacity)).map some := by
    apply List.ext_getElem
    · rw [List.length_map, List.length_map, List.length_range]
    · intro i _ below
      rw [List.length_map] at below
      rw [List.getElem_map, List.getElem_map, List.getElem_range, List.getElem?_eq_getElem below]
  have count : ring.count = (items.drop (items.length - capacity)).length := by
    rw [List.length_drop]
    omega
  calc ring.snapshot
      = (List.range ring.count).filterMap
          fun i => (items.drop (items.length - capacity))[i]? := by
        apply List.filterMap_congr
        intro i listed
        rw [List.getElem?_drop]
        exact cell i (List.mem_range.mp listed)
    _ = ((items.drop (items.length - capacity)).map some).filterMap id := by
        rw [← all, count, List.filterMap_map]
        rfl
    _ = items.drop (items.length - capacity) := by
        rw [List.filterMap_map]
        exact List.filterMap_some

end RingBuffer

end VectorDebugger

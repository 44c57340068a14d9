import Mathlib.Data.List.Basic

/-!
# Cells that are written in pieces

A store has a value at every number. A list is written from a position on, and a window reads so
many values from a position on.
-/

namespace Cells

variable {α : Type*}

/-- The store with a list written from a position on. -/
def write (store : Nat → α) (pos : Nat) (data : List α) : Nat → α :=
  fun i => if pos ≤ i then data.getD (i - pos) (store i) else store i

/-- So many values from a position on. -/
def window (store : Nat → α) (pos count : Nat) : List α :=
  (List.range count).map fun i => store (pos + i)

theorem write_before (store : Nat → α) {pos i : Nat} (data : List α) (before : i < pos) :
    write store pos data i = store i :=
  if_neg (Nat.not_le.mpr before)

theorem write_behind (store : Nat → α) {pos i : Nat} {data : List α}
    (behind : pos + data.length ≤ i) : write store pos data i = store i := by
  unfold write
  rw [if_pos (by omega), List.getD_eq_getElem?_getD, List.getElem?_eq_none (by omega)]
  rfl

theorem write_outside (store : Nat → α) {pos i : Nat} {data : List α}
    (outside : i < pos ∨ pos + data.length ≤ i) : write store pos data i = store i := by
  rcases outside with before | behind
  · exact write_before store data before
  · exact write_behind store behind

theorem write_inside (store : Nat → α) (pos : Nat) {data : List α} {k : Nat}
    (inside : k < data.length) : write store pos data (pos + k) = data[k] := by
  unfold write
  rw [if_pos (Nat.le_add_right pos k), Nat.add_sub_cancel_left, List.getD_eq_getElem?_getD,
    List.getElem?_eq_getElem inside]
  rfl

@[simp] theorem length_window (store : Nat → α) (pos count : Nat) :
    (window store pos count).length = count := by
  unfold window
  rw [List.length_map, List.length_range]

theorem window_congr {store other : Nat → α} {pos count : Nat}
    (same : ∀ i, pos ≤ i → i < pos + count → store i = other i) :
    window store pos count = window other pos count :=
  List.map_congr_left fun i mem =>
    same (pos + i) (Nat.le_add_right pos i) (Nat.add_lt_add_left (List.mem_range.mp mem) pos)

theorem window_write (store : Nat → α) (pos : Nat) (data : List α) :
    window (write store pos data) pos data.length = data := by
  refine List.ext_getElem (length_window _ _ _) fun k _ inside => ?_
  simp only [window, List.getElem_map, List.getElem_range]
  exact write_inside store pos inside

theorem window_add (store : Nat → α) (pos front back : Nat) :
    window store pos (front + back) =
      window store pos front ++ window store (pos + front) back := by
  unfold window
  rw [List.range_add, List.map_append, List.map_map]
  refine congrArg (_ ++ ·) (List.map_congr_left fun i _ => ?_)
  rw [Function.comp_apply, Nat.add_assoc]

theorem take_window (store : Nat → α) (pos count front : Nat) :
    (window store pos count).take front = window store pos (min front count) := by
  unfold window
  rw [← List.map_take, List.take_range]

end Cells

import Mathlib.Data.List.Basic
import Mathlib.Tactic.Common

/-!
# Windows of a list

A stretch of a list is read as a list and overwritten by another of its length. What is written is
read back, and windows that do not meet do not disturb each other.
-/

namespace Windows

variable {α : Type*} {cells data : List α} {start other count i : Nat}

/-- The stretch of so many cells from a start on. -/
def window (cells : List α) (start count : Nat) : List α := (cells.drop start).take count

/-- The cells from a start on are replaced. -/
def overwrite (cells : List α) (start : Nat) (data : List α) : List α :=
  cells.take start ++ data ++ cells.drop (start + data.length)

theorem getElem?_window (cells : List α) (start count i : Nat) :
    (window cells start count)[i]? = if i < count then cells[start + i]? else none := by
  unfold window
  rw [List.getElem?_take, List.getElem?_drop]

/-- A window starts with its first cell. -/
theorem window_succ (cells : List α) (inside : start < cells.length) (count : Nat) (default : α) :
    window cells start (count + 1) =
      cells.getD start default :: window cells (start + 1) count := by
  unfold window
  rw [List.drop_eq_getElem_cons inside, List.take_succ_cons,
    List.getD_eq_getElem?_getD, List.getElem?_eq_getElem inside, Option.getD_some]

theorem length_overwrite (fits : start + data.length ≤ cells.length) :
    (overwrite cells start data).length = cells.length := by
  unfold overwrite
  rw [List.length_append, List.length_append, List.length_take, List.length_drop]
  omega

/-- A cell is the one that was written there, or the one before. -/
theorem getElem?_overwrite (fits : start + data.length ≤ cells.length) (i : Nat) :
    (overwrite cells start data)[i]? =
      if start ≤ i ∧ i < start + data.length then data[i - start]? else cells[i]? := by
  have taken : (cells.take start).length = start := by
    rw [List.length_take]
    omega
  unfold overwrite
  rw [List.append_assoc]
  by_cases before : i < start
  · rw [List.getElem?_append_left (by omega), List.getElem?_take, if_pos before,
      if_neg (fun both => absurd both.1 (by omega))]
  · rw [List.getElem?_append_right (by omega), taken]
    by_cases inside : i < start + data.length
    · rw [List.getElem?_append_left (by omega), if_pos ⟨by omega, inside⟩]
    · rw [List.getElem?_append_right (by omega), if_neg (fun both => inside both.2),
        List.getElem?_drop]
      congr 1
      omega

/-- What was written is read back. -/
theorem window_overwrite (fits : start + data.length ≤ cells.length) :
    window (overwrite cells start data) start data.length = data := by
  apply List.ext_getElem?
  intro i
  rw [getElem?_window]
  split
  · rename_i inside
    rw [getElem?_overwrite fits, if_pos ⟨by omega, by omega⟩, Nat.add_sub_cancel_left]
  · rename_i outside
    exact (List.getElem?_eq_none (by omega)).symm

/-- A window apart from what is written stays as it was. -/
theorem window_overwrite_apart (fits : start + data.length ≤ cells.length)
    (apart : other + count ≤ start ∨ start + data.length ≤ other) :
    window (overwrite cells start data) other count = window cells other count := by
  apply List.ext_getElem?
  intro i
  rw [getElem?_window, getElem?_window]
  split
  · rw [getElem?_overwrite fits, if_neg (by omega)]
  · rfl

/-- A cell outside a window does not change it. -/
theorem window_set_apart {cell : Nat} (apart : cell < start ∨ start + count ≤ cell) (value : α) :
    window (cells.set cell value) start count = window cells start count := by
  apply List.ext_getElem?
  intro i
  rw [getElem?_window, getElem?_window]
  split
  · rw [List.getElem?_set_ne (by omega)]
  · rfl

theorem overwrite_nil (cells : List α) (start : Nat) : overwrite cells start [] = cells := by
  unfold overwrite
  rw [List.length_nil, Nat.add_zero, List.append_nil, List.take_append_drop]

/-- Writing the next cell writes one more. -/
theorem set_overwrite (fits : start + data.length < cells.length) (value : α) :
    (overwrite cells start data).set (start + data.length) value =
      overwrite cells start (data ++ [value]) := by
  apply List.ext_getElem?
  intro i
  have more : start + (data ++ [value]).length ≤ cells.length := by
    rw [List.length_append, List.length_singleton]
    omega
  have small : start + data.length ≤ cells.length := Nat.le_of_lt fits
  rw [getElem?_overwrite more, List.getElem?_set, length_overwrite small,
    List.length_append, List.length_singleton]
  by_cases here : start + data.length = i
  · rw [if_pos here, if_pos fits, if_pos (by omega), ← here, Nat.add_sub_cancel_left,
      List.getElem?_concat_length]
  · rw [if_neg here, getElem?_overwrite small]
    by_cases inside : start ≤ i ∧ i < start + data.length
    · rw [if_pos inside, if_pos (by omega), List.getElem?_append_left (by omega)]
    · rw [if_neg inside, if_neg (by omega)]

end Windows

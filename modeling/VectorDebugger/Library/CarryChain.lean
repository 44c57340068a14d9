import Mathlib.Algebra.Order.Ring.Int
import Mathlib.Tactic.Ring

/-!
# Digits with a carry

A step takes one place of a number and leaves a digit and a carry. If every step keeps its own sum,
in a base, then a chain of steps keeps the sum of the whole numbers. A borrow is a negative carry.
-/

namespace CarryChain

variable {State Item : Type*}

/-- The value of digits, the least one first. -/
def value (base : ℤ) : List ℤ → ℤ
  | [] => 0
  | digit :: digits => digit + base * value base digits

/-- A chain of steps: the digits, and the state behind the last. -/
def chain (step : State → Item → State) (digit : State → ℤ) : State → List Item → List ℤ × State
  | state, [] => ([], state)
  | state, item :: items =>
    let rest := chain step digit (step state item) items
    (digit (step state item) :: rest.1, rest.2)

theorem value_add (base : ℤ) {Item : Type*} (left right : Item → ℤ) (items : List Item) :
    value base (items.map fun item => left item + right item) =
      value base (items.map left) + value base (items.map right) := by
  induction items with
  | nil => rfl
  | cons item items inductionHypothesis =>
    simp only [List.map_cons, value, inductionHypothesis]
    ring

theorem value_sub (base : ℤ) {Item : Type*} (left right : Item → ℤ) (items : List Item) :
    value base (items.map fun item => left item - right item) =
      value base (items.map left) - value base (items.map right) := by
  induction items with
  | nil => rfl
  | cons item items inductionHypothesis =>
    simp only [List.map_cons, value, inductionHypothesis]
    ring

/-- What every step keeps, the chain keeps. -/
theorem value_chain {base : ℤ} {step : State → Item → State} {digit carry : State → ℤ}
    {amount : Item → ℤ} {Ok : Item → Prop}
    (exact' : ∀ state item, Ok item →
      digit (step state item) + base * carry (step state item) = amount item + carry state)
    (items : List Item) : (∀ item ∈ items, Ok item) → ∀ state,
      value base (chain step digit state items).1 +
          base ^ items.length * carry (chain step digit state items).2 =
        value base (items.map amount) + carry state := by
  induction items with
  | nil =>
    intro _ state
    simp [chain, value]
  | cons item items inductionHypothesis =>
    intro ok state
    have first := exact' state item (ok item List.mem_cons_self)
    have rest := inductionHypothesis (fun later mem => ok later (List.mem_cons_of_mem _ mem))
      (step state item)
    simp only [chain, value, List.map_cons, List.length_cons, pow_succ]
    calc _ = digit (step state item) + base *
          (value base (chain step digit (step state item) items).1 +
            base ^ items.length * carry (chain step digit (step state item) items).2) := by ring
      _ = (digit (step state item) + base * carry (step state item)) +
          base * value base (items.map amount) := by
        rw [rest]
        ring
      _ = _ := by
        rw [first]
        ring

end CarryChain

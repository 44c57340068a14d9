import Mathlib.Logic.Function.Iterate
import Mathlib.Data.List.Basic
import Mathlib.Data.Set.Basic
import Mathlib.Tactic.Common

/-!
# Runs of transition systems

Step facts lifted to whole runs, once for systems that move by a function and once for
systems that move by a labelled relation. A step fact may need a condition of its own on
the state it starts from; the lifted fact then holds of every run whose steps all meet it. A pass
over a list whose steps each add to a set adds the union.
-/

namespace Transition

section Iterate

variable {State Other : Type*} {next : State → State} {other : Other → Other}

/-- Two iterations stay related as long as the condition holds before every step. -/
theorem iterate_related {Related : State → Other → Prop} {Ok : State → Prop}
    (step : ∀ state image, Related state image → Ok state → Related (next state) (other image))
    (count : Nat) :
    ∀ {state : State} {image : Other}, Related state image →
      (∀ i < count, Ok (next^[i] state)) → Related (next^[count] state) (other^[count] image) := by
  induction count with
  | zero =>
    intro state image related ok
    exact related
  | succ count inductionHypothesis =>
    intro state image related ok
    have first := step state image related (ok 0 (Nat.succ_pos count))
    have rest := inductionHypothesis first fun i below =>
      ok (i + 1) (Nat.succ_lt_succ below)
    simpa only [Function.iterate_succ_apply] using rest

/-- An invariant of one step is an invariant of every iteration whose steps meet the
condition. -/
theorem iterate_invariant {Inv Ok : State → Prop}
    (step : ∀ state, Inv state → Ok state → Inv (next state)) (count : Nat) {state : State}
    (initial : Inv state) (ok : ∀ i < count, Ok (next^[i] state)) : Inv (next^[count] state) := by
  exact @iterate_related State Unit next id (fun state _ => Inv state) Ok
    (fun state _ inv ok => step state inv ok) count state () initial ok

end Iterate

section Labelled

variable {State Label : Type*} {Step : State → Label → State → Prop}

/-- A finite run, with its labels in order. -/
inductive Run (Step : State → Label → State → Prop) : State → List Label → State → Prop
  | /-- The empty run. -/
    nil (state : State) : Run Step state [] state
  | /-- One step before a run. -/
    cons {state middle final : State} {label : Label} {labels : List Label}
      (step : Step state label middle) (rest : Run Step middle labels final) :
      Run Step state (label :: labels) final

namespace Run

/-- An invariant of one step is an invariant of every run. -/
theorem invariant {Inv : State → Prop}
    (step : ∀ state label state', Inv state → Step state label state' → Inv state')
    {state final : State} {labels : List Label} (run : Run Step state labels final)
    (initial : Inv state) : Inv final := by
  induction run with
  | nil state => exact initial
  | cons first rest inductionHypothesis =>
    exact inductionHypothesis (step _ _ _ initial first)

/-- Runs compose at a shared state. -/
theorem append {state middle final : State} {front back : List Label}
    (first : Run Step state front middle) (second : Run Step middle back final) :
    Run Step state (front ++ back) final := by
  induction first with
  | nil state => exact second
  | cons step rest inductionHypothesis => exact .cons step (inductionHypothesis second)

end Run

end Labelled

section Pass

variable {State Item Found : Type*} {step : State → Item → State} {adds : Item → Set Found}

/-- A pass over a list finds what its steps find. The order of the items does not matter, though a
step may use what was found before it. -/
theorem foldl_collects {Holds : Set Found → State → Prop}
    (collects : ∀ found state item, Holds found state → Holds (found ∪ adds item) (step state item))
    (items : List Item) :
    ∀ {found : Set Found} {state : State}, Holds found state →
      Holds (found ∪ {entry | ∃ item ∈ items, entry ∈ adds item}) (items.foldl step state) := by
  induction items with
  | nil =>
    intro found state holds
    have nothing : found ∪ {entry | ∃ item ∈ ([] : List Item), entry ∈ adds item} = found := by
      simp
    rw [nothing]
    exact holds
  | cons item items inductionHypothesis =>
    intro found state holds
    have rest := inductionHypothesis (collects found state item holds)
    have union : found ∪ adds item ∪ {entry | ∃ other ∈ items, entry ∈ adds other} =
        found ∪ {entry | ∃ other ∈ item :: items, entry ∈ adds other} := by
      ext entry
      simp [or_assoc]
    rw [union] at rest
    exact rest

end Pass

end Transition

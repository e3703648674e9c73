/-
This file is about a function that is applied again and again: when it comes to something,
and the rule by which it does. Where every state that an invariant holds of has come to it
already, or goes on after some more steps to a smaller state that the invariant holds of,
every such state comes to it.
-/

import Mathlib.Logic.Function.Iterate
import Mathlib.Order.RelClasses

namespace Oryxis.Library

variable {State : Type*} {step : State → State} {reached : State → Prop}

/-- Applied often enough, the function comes to it. -/
def ComesTo (step : State → State) (reached : State → Prop) (state : State) : Prop :=
  ∃ times, reached (step^[times] state)

variable {state : State}

theorem comesTo_now (here : reached state) : ComesTo step reached state :=
  ⟨0, here⟩

theorem ComesTo.after (times : Nat) (later : ComesTo step reached (step^[times] state)) :
    ComesTo step reached state := by
  obtain ⟨more, there⟩ := later
  refine ⟨more + times, ?_⟩
  rw [Function.iterate_add_apply]
  exact there

theorem comesTo_step (later : ComesTo step reached (step state)) :
    ComesTo step reached state :=
  later.after 1

/-- The rule for coming to something. -/
theorem comesTo_of_decreases {Measure : Type*} {smaller : Measure → Measure → Prop}
    (wellFounded : WellFounded smaller) (measure : State → Measure) (holds : State → Prop)
    (decreases : ∀ state, holds state → reached state ∨
      ∃ times, holds (step^[times] state) ∧ smaller (measure (step^[times] state)) (measure state))
    (start : holds state) : ComesTo step reached state := by
  induction bound : measure state using wellFounded.induction generalizing state with
  | _ current inductionHypothesis =>
    rcases decreases state start with here | ⟨times, next, less⟩
    · exact comesTo_now here
    · exact ComesTo.after times (inductionHypothesis _ (bound ▸ less) next rfl)

end Oryxis.Library

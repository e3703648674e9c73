/-
This file is a machine that takes one action at a time, where an action may be
refused, and the two rules its runs are reasoned with. The invariant rule: what
holds at the start and is kept by every step that meets a condition holds at the
end of every run whose steps all meet it. The verdict rule: where a verdict on the
past is passed step by step, by the condition, the verdict on a run is that all of
its steps meet the condition.
-/

import Mathlib.Data.List.Induction

namespace Oryxis.Library

open List

variable {State Action : Type*}

/-- A deterministic machine; `none` refuses the action in that state. -/
structure Machine (State Action : Type*) where
  step : State → Action → Option State

namespace Machine

def run (machine : Machine State Action) : State → List Action → Option State
  | state, [] => some state
  | state, action :: actions =>
    match machine.step state action with
    | none => none
    | some next => run machine next actions

/-- Every action of the run meets the condition in the state it is taken in. -/
def Along (machine : Machine State Action) (condition : State → Action → Prop) :
    State → List Action → Prop
  | _, [] => True
  | state, action :: actions =>
    condition state action ∧
      ∀ next, machine.step state action = some next → Along machine condition next actions

theorem run_cons_eq_some {machine : Machine State Action} {state final : State} {action : Action}
    {actions : List Action} :
    machine.run state (action :: actions) = some final ↔
      ∃ next, machine.step state action = some next ∧ machine.run next actions = some final := by
  simp only [run]
  cases stepped : machine.step state action with
  | none => simp
  | some next => simp

theorem along_cons_of_step {machine : Machine State Action} {condition : State → Action → Prop}
    {state next : State} {action : Action} {actions : List Action}
    (stepped : machine.step state action = some next) :
    machine.Along condition state (action :: actions) ↔
      condition state action ∧ machine.Along condition next actions := by
  refine and_congr_right fun _ => ⟨fun along => along next stepped, fun along other otherStep => ?_⟩
  rw [stepped] at otherStep
  cases otherStep
  exact along

instance decidableAlong (machine : Machine State Action) (condition : State → Action → Prop)
    [∀ state action, Decidable (condition state action)] :
    ∀ state actions, Decidable (machine.Along condition state actions)
  | _, [] => isTrue trivial
  | state, action :: actions =>
    match stepped : machine.step state action with
    | none => decidable_of_iff (condition state action)
        ⟨fun here => ⟨here, fun next isNext => by rw [stepped] at isNext; cases isNext⟩, And.left⟩
    | some next =>
      haveI := decidableAlong machine condition next actions
      decidable_of_iff _ (along_cons_of_step stepped).symm

theorem run_append {machine : Machine State Action} {state middle final : State}
    {earlier later : List Action} (ranBefore : machine.run state earlier = some middle)
    (ranAfter : machine.run middle later = some final) :
    machine.run state (earlier ++ later) = some final := by
  induction earlier generalizing state with
  | nil =>
    cases ranBefore
    exact ranAfter
  | cons action earlier inductionHypothesis =>
    obtain ⟨next, stepped, rest⟩ := run_cons_eq_some.mp ranBefore
    exact run_cons_eq_some.mpr ⟨next, stepped, inductionHypothesis rest⟩

theorem run_append_eq_some {machine : Machine State Action} {state final : State}
    {earlier later : List Action} :
    machine.run state (earlier ++ later) = some final ↔
      ∃ middle, machine.run state earlier = some middle ∧ machine.run middle later = some final := by
  constructor
  · intro ran
    induction earlier generalizing state with
    | nil => exact ⟨state, rfl, ran⟩
    | cons action earlier inductionHypothesis =>
      obtain ⟨next, stepped, rest⟩ := run_cons_eq_some.mp ran
      obtain ⟨middle, before, after⟩ := inductionHypothesis rest
      exact ⟨middle, run_cons_eq_some.mpr ⟨next, stepped, before⟩, after⟩
  · rintro ⟨middle, before, after⟩
    exact run_append before after

/-- The rule for what a run has come to, in terms of the actions so far. -/
theorem past_induction {machine : Machine State Action} {state : State}
    {holds : List Action → State → Prop} (start : holds [] state)
    (kept : ∀ past reached action next, machine.run state past = some reached →
      holds past reached → machine.step reached action = some next → holds (past ++ [action]) next)
    {actions : List Action} {final : State} (ran : machine.run state actions = some final) :
    holds actions final := by
  induction actions using List.reverseRecOn generalizing final with
  | nil =>
    cases ran
    exact start
  | append_singleton past action inductionHypothesis =>
    obtain ⟨reached, before, last⟩ := run_append_eq_some.mp ran
    obtain ⟨next, stepped, isFinal⟩ := run_cons_eq_some.mp last
    cases isFinal
    exact kept past reached action _ before (inductionHypothesis before) stepped

/-- What every step that meets the condition keeps, every such run keeps. -/
theorem invariant {machine : Machine State Action} {condition : State → Action → Prop}
    {holds : State → Prop}
    (kept : ∀ state action next, holds state → condition state action →
      machine.step state action = some next → holds next)
    {state final : State} {actions : List Action} (start : holds state)
    (along : machine.Along condition state actions)
    (ran : machine.run state actions = some final) : holds final := by
  induction actions generalizing state with
  | nil =>
    cases ran
    exact start
  | cons action actions inductionHypothesis =>
    obtain ⟨next, stepped, rest⟩ := run_cons_eq_some.mp ran
    obtain ⟨here, later⟩ := (along_cons_of_step stepped).mp along
    exact inductionHypothesis (kept state action next start here stepped) later rest

/-- What every step that meets the condition keeps, and what its action has come to: at the end of
such a run the last action has come to it. -/
theorem invariant_last {machine : Machine State Action} {condition : State → Action → Prop}
    {holds : State → Prop} {reached : Action → State → Prop}
    (kept : ∀ state action next, holds state → condition state action →
      machine.step state action = some next → holds next ∧ reached action next)
    {state final : State} {actions : List Action} (start : holds state)
    (along : machine.Along condition state actions)
    (ran : machine.run state actions = some final) :
    holds final ∧ ∀ last, actions.getLast? = some last → reached last final := by
  induction actions generalizing state with
  | nil =>
    cases ran
    exact ⟨start, fun last none => by cases none⟩
  | cons action actions inductionHypothesis =>
    obtain ⟨next, stepped, rest⟩ := run_cons_eq_some.mp ran
    obtain ⟨here, later⟩ := (along_cons_of_step stepped).mp along
    obtain ⟨holdsNext, reachedNext⟩ := kept state action next start here stepped
    refine ⟨(inductionHypothesis holdsNext later rest).1, fun last isLast => ?_⟩
    cases actions with
    | nil =>
      cases rest
      cases isLast
      exact reachedNext
    | cons second others =>
      rw [getLast?_cons_cons] at isLast
      exact (inductionHypothesis holdsNext later rest).2 last isLast

theorem along_true (machine : Machine State Action) (state : State) (actions : List Action) :
    machine.Along (fun _ _ => True) state actions := by
  induction actions generalizing state with
  | nil => trivial
  | cons action actions inductionHypothesis =>
    exact ⟨trivial, fun next _ => inductionHypothesis next⟩

theorem Along.and {machine : Machine State Action} {condition other : State → Action → Prop}
    {state : State} {actions : List Action} (first : machine.Along condition state actions)
    (second : machine.Along other state actions) :
    machine.Along (fun state action => condition state action ∧ other state action) state
      actions := by
  induction actions generalizing state with
  | nil => trivial
  | cons action actions inductionHypothesis =>
    exact ⟨⟨first.1, second.1⟩, fun next stepped =>
      inductionHypothesis (first.2 next stepped) (second.2 next stepped)⟩

theorem along_congr {machine : Machine State Action} {condition other : State → Action → Prop}
    {allowed : Action → Prop} {state : State} {actions : List Action}
    (same : ∀ state action, allowed action → (condition state action ↔ other state action))
    (all : ∀ action ∈ actions, allowed action) :
    machine.Along condition state actions ↔ machine.Along other state actions := by
  induction actions generalizing state with
  | nil => exact Iff.rfl
  | cons action actions inductionHypothesis =>
    refine and_congr (same state action (all action (mem_cons_self ..))) ?_
    exact forall_congr' fun next => imp_congr_right fun _ =>
      inductionHypothesis fun later member => all later (mem_cons_of_mem _ member)

theorem along_of_forall {machine : Machine State Action} {allowed : Action → Prop} {state : State}
    {actions : List Action} (all : ∀ action ∈ actions, allowed action) :
    machine.Along (fun _ => allowed) state actions := by
  induction actions generalizing state with
  | nil => trivial
  | cons action actions inductionHypothesis =>
    exact ⟨all action (mem_cons_self ..), fun next _ =>
      inductionHypothesis fun later member => all later (mem_cons_of_mem _ member)⟩

/-- What every step that meets the condition lowers bounds the number of steps. -/
theorem length_le_of_lowers {machine : Machine State Action} {condition : State → Action → Prop}
    {holds : State → Prop} (measure : State → Nat)
    (kept : ∀ state action next, holds state → condition state action →
      machine.step state action = some next → holds next ∧ measure next < measure state)
    {state final : State} {actions : List Action} (start : holds state)
    (along : machine.Along condition state actions)
    (ran : machine.run state actions = some final) :
    actions.length + measure final ≤ measure state := by
  induction actions generalizing state with
  | nil =>
    cases ran
    exact Nat.le_of_eq (Nat.zero_add _)
  | cons action actions inductionHypothesis =>
    obtain ⟨next, stepped, rest⟩ := run_cons_eq_some.mp ran
    obtain ⟨here, later⟩ := (along_cons_of_step stepped).mp along
    obtain ⟨holdsNext, less⟩ := kept state action next start here stepped
    have := inductionHypothesis holdsNext later rest
    rw [length_cons]
    omega

/-- However the steps that meet the condition are chosen, they come to an end, and at the goal. -/
structure EndsIn (machine : Machine State Action) (condition : State → Action → Prop)
    (goal : State → Prop) (start : State) : Prop where
  bounded : ∃ bound, ∀ actions final, machine.Along condition start actions →
    machine.run start actions = some final → actions.length ≤ bound
  goesOn : ∀ actions final, machine.Along condition start actions →
    machine.run start actions = some final →
      goal final ∨ ∃ action next, condition final action ∧ machine.step final action = some next

/-- The rule for coming to an end at the goal. -/
theorem endsIn_of_lowers {machine : Machine State Action} {condition : State → Action → Prop}
    {goal holds : State → Prop} (measure : State → Nat)
    (kept : ∀ state action next, holds state → condition state action →
      machine.step state action = some next → holds next ∧ measure next < measure state)
    (goesOn : ∀ state, holds state →
      goal state ∨ ∃ action next, condition state action ∧ machine.step state action = some next)
    {start : State} (starts : holds start) : machine.EndsIn condition goal start where
  bounded := by
    refine ⟨measure start, fun actions final along ran => ?_⟩
    have := length_le_of_lowers measure kept starts along ran
    omega
  goesOn actions final along ran :=
    goesOn final (invariant (fun state action next here meets stepped =>
      (kept state action next here meets stepped).1) starts along ran)

theorem along_append_singleton {machine : Machine State Action}
    {condition : State → Action → Prop} {state middle : State} {actions : List Action}
    {action : Action} (along : machine.Along condition state actions)
    (ran : machine.run state actions = some middle) (meets : condition middle action) :
    machine.Along condition state (actions ++ [action]) := by
  induction actions generalizing state with
  | nil =>
    cases ran
    exact ⟨meets, fun _ _ => trivial⟩
  | cons first actions inductionHypothesis =>
    obtain ⟨next, stepped, rest⟩ := run_cons_eq_some.mp ran
    obtain ⟨here, later⟩ := (along_cons_of_step stepped).mp along
    exact (along_cons_of_step stepped).mpr ⟨here, inductionHypothesis later rest⟩

/-- Where something can always be done, runs are as long as one likes. -/
theorem exists_run_of_length {machine : Machine State Action} {condition : State → Action → Prop}
    {start : State} (more : ∀ actions final, machine.Along condition start actions →
      machine.run start actions = some final →
        ∃ action next, condition final action ∧ machine.step final action = some next)
    (length : Nat) : ∃ actions final, actions.length = length ∧
      machine.Along condition start actions ∧ machine.run start actions = some final := by
  induction length with
  | zero => exact ⟨[], start, rfl, trivial, rfl⟩
  | succ length inductionHypothesis =>
    obtain ⟨actions, middle, isLength, along, ran⟩ := inductionHypothesis
    obtain ⟨action, final, meets, stepped⟩ := more actions middle along ran
    refine ⟨actions ++ [action], final, ?_, along_append_singleton along ran meets, ?_⟩
    · rw [length_append, isLength, length_singleton]
    · exact run_append ran (run_cons_eq_some.mpr ⟨final, stepped, rfl⟩)

/-- What comes to an end at the goal reaches it. -/
theorem EndsIn.exists_goal {machine : Machine State Action} {condition : State → Action → Prop}
    {goal : State → Prop} {start : State} (ends : machine.EndsIn condition goal start) :
    ∃ actions final, machine.Along condition start actions ∧
      machine.run start actions = some final ∧ goal final := by
  by_contra none
  obtain ⟨bound, bounded⟩ := ends.bounded
  have more : ∀ actions final, machine.Along condition start actions →
      machine.run start actions = some final →
        ∃ action next, condition final action ∧ machine.step final action = some next :=
    fun actions final along ran => (ends.goesOn actions final along ran).resolve_left
      fun goes => none ⟨actions, final, along, ran, goes⟩
  obtain ⟨actions, final, isLength, along, ran⟩ := exists_run_of_length more (bound + 1)
  have := bounded actions final along ran
  omega

/-- A verdict that every step passes exactly when it passed before and the step meets the
condition passes a run exactly when all of its steps meet it. -/
theorem verdict_iff_along {machine : Machine State Action} {condition : State → Action → Prop}
    {holds verdict : State → Prop}
    (kept : ∀ state action next, holds state → machine.step state action = some next → holds next)
    (judged : ∀ state action next, holds state → machine.step state action = some next →
      (verdict next ↔ verdict state ∧ condition state action))
    {state final : State} {actions : List Action} (start : holds state)
    (ran : machine.run state actions = some final) :
    verdict final ↔ verdict state ∧ machine.Along condition state actions := by
  induction actions generalizing state with
  | nil =>
    cases ran
    exact ⟨fun passed => ⟨passed, trivial⟩, And.left⟩
  | cons action actions inductionHypothesis =>
    obtain ⟨next, stepped, rest⟩ := run_cons_eq_some.mp ran
    rw [inductionHypothesis (kept state action next start stepped) rest,
      judged state action next start stepped, along_cons_of_step stepped, and_assoc]

end Machine

/-- What holds of nothing, and goes on holding exactly where the next one is fit, holds of every
beginning of a list exactly where all of it is fit. -/
theorem forall_prefix_iff {holds : List Action → Prop} {fits : List Action → Action → Prop}
    (empty : holds []) (one : ∀ earlier last, holds earlier →
      (holds (earlier ++ [last]) ↔ fits earlier last)) (actions : List Action) :
    (∀ earlier, earlier <+: actions → holds earlier) ↔
      ∀ earlier last later, actions = earlier ++ last :: later → fits earlier last := by
  constructor
  · rintro all earlier last later rfl
    have before : earlier <+: earlier ++ last :: later := prefix_append _ _
    have after : earlier ++ [last] <+: earlier ++ last :: later :=
      ⟨later, by rw [append_assoc]; rfl⟩
    exact (one earlier last (all _ before)).mp (all _ after)
  · intro all earlier isPrefix
    induction earlier using List.reverseRecOn with
    | nil => exact empty
    | append_singleton earlier last inductionHypothesis =>
      obtain ⟨later, rfl⟩ := isPrefix
      refine (one earlier last (inductionHypothesis ?_)).mpr (all earlier last later ?_)
      · exact ⟨last :: later, by rw [append_assoc]; rfl⟩
      · rw [append_assoc]
        rfl

end Oryxis.Library

/-
This file is a walk from a stack of tasks. One task at a time is popped, an answer
from outside decides what it puts out and which tasks it pushes, and nothing is
known of the answers. Where every pushed task is on a lower level than the one that
pushed it the walk ends whatever it is answered, and by then every task that was
ever on the stack has been popped.
-/

import Mathlib.Tactic.TypeStar

namespace Oryxis.Library

open List

variable {Task Answer Effect : Type*}

structure Walk (Task Effect : Type*) where
  /-- The task that was pushed last comes first. -/
  stack : List Task
  effects : List Effect

/-- What a task does once it is answered. -/
structure Walker (Task Answer Effect : Type*) where
  effects : Task → Answer → List Effect
  pushed : Task → Answer → List Task

namespace Walker

variable (walker : Walker Task Answer Effect) (answers : Nat → Answer)

def step (answer : Answer) (walk : Walk Task Effect) : Walk Task Effect :=
  match walk.stack with
  | [] => walk
  | task :: rest =>
    { stack := (walker.pushed task answer).reverse ++ rest
      effects := walk.effects ++ walker.effects task answer }

/-- The walk after a number of tasks. -/
def run (start : List Task) : Nat → Walk Task Effect
  | 0 => ⟨start, []⟩
  | count + 1 => walker.step (answers count) (run start count)

/-- The task the walk pops after a number of others. -/
def Pops (start : List Task) (count : Nat) (task : Task) : Prop :=
  (walker.run answers start count).stack.head? = some task

variable {walker answers} {start : List Task} {count : Nat} {task : Task}

theorem run_succ_of_pops (pops : walker.Pops answers start count task) :
    ∃ rest, (walker.run answers start count).stack = task :: rest ∧
      walker.run answers start (count + 1) =
        { stack := (walker.pushed task (answers count)).reverse ++ rest
          effects := (walker.run answers start count).effects ++
            walker.effects task (answers count) } := by
  obtain ⟨rest, stack⟩ := head?_eq_some_iff.mp pops
  refine ⟨rest, stack, ?_⟩
  rw [run, step, stack]

theorem run_succ_of_nil (ended : (walker.run answers start count).stack = []) :
    walker.run answers start (count + 1) = walker.run answers start count := by
  rw [run, step, ended]

theorem pops_or_ended (walker : Walker Task Answer Effect) (answers : Nat → Answer)
    (start : List Task) (count : Nat) :
    (∃ task, walker.Pops answers start count task) ∨
      (walker.run answers start count).stack = [] := by
  unfold Pops
  cases (walker.run answers start count).stack with
  | nil => exact .inr rfl
  | cons task rest => exact .inl ⟨task, rfl⟩

/-- What the tasks at the start have, and a popped task hands on to those it pushes, every task on
the stack has. -/
theorem forall_stack {holds : Task → Prop} (atStart : ∀ task ∈ start, holds task)
    (handed : ∀ count task, walker.Pops answers start count task → holds task →
      ∀ child ∈ walker.pushed task (answers count), holds child) :
    ∀ count, ∀ task ∈ (walker.run answers start count).stack, holds task := by
  intro count
  induction count with
  | zero => exact atStart
  | succ count inductionHypothesis =>
    rcases pops_or_ended walker answers start count with ⟨popped, pops⟩ | ended
    · obtain ⟨rest, stack, next⟩ := run_succ_of_pops pops
      rw [stack] at inductionHypothesis
      obtain ⟨here, below⟩ := forall_mem_cons.mp inductionHypothesis
      intro task member
      rw [next] at member
      rcases mem_append.mp member with isPushed | isRest
      · exact handed count popped pops here task (mem_reverse.mp isPushed)
      · exact below task isRest
    · rw [run_succ_of_nil ended]
      exact inductionHypothesis

theorem mem_stack_of_pops (pops : walker.Pops answers start count task) :
    task ∈ (walker.run answers start count).stack :=
  mem_of_mem_head? pops

/-- The effects of a walk are those of the tasks it has popped. -/
theorem mem_effects_iff {effect : Effect} :
    effect ∈ (walker.run answers start count).effects ↔
      ∃ index < count, ∃ task, walker.Pops answers start index task ∧
        effect ∈ walker.effects task (answers index) := by
  induction count with
  | zero => simp [run]
  | succ count inductionHypothesis =>
    have split : ∀ holds : Nat → Prop,
        (∃ index < count + 1, holds index) ↔ (∃ index < count, holds index) ∨ holds count := by
      intro holds
      simp only [Nat.lt_succ_iff_lt_or_eq, or_and_right, exists_or, exists_eq_left]
    rw [split, ← inductionHypothesis]
    rcases pops_or_ended walker answers start count with ⟨popped, pops⟩ | ended
    · obtain ⟨rest, stack, next⟩ := run_succ_of_pops pops
      rw [next, mem_append]
      refine or_congr_right ⟨fun member => ⟨popped, pops, member⟩, ?_⟩
      rintro ⟨task, alsoPops, member⟩
      cases Option.some.inj (pops.symm.trans alsoPops)
      exact member
    · rw [run_succ_of_nil ended]
      refine (or_iff_left ?_).symm
      rintro ⟨task, pops, _⟩
      rw [Pops, ended] at pops
      cases pops

/-- A task on the stack is popped before those below it are reached. -/
theorem exists_stack_eq (level : Task → Nat)
    (lower : ∀ task answer, ∀ child ∈ walker.pushed task answer, level child < level task) :
    ∀ (bound : Nat) (tasks rest : List Task) (count : Nat), (∀ task ∈ tasks, level task < bound) →
      (walker.run answers start count).stack = tasks ++ rest →
      ∃ later, count ≤ later ∧ (walker.run answers start later).stack = rest := by
  -- Outside the levels, inside the tasks of one level.
  intro bound
  induction bound with
  | zero =>
    intro tasks rest count below stack
    cases tasks with
    | nil => exact ⟨count, Nat.le_refl _, stack⟩
    | cons task tasks => exact absurd (below task (mem_cons_self ..)) (Nat.not_lt_zero _)
  | succ bound levels =>
    intro tasks
    induction tasks with
    | nil => exact fun rest count _ stack => ⟨count, Nat.le_refl _, stack⟩
    | cons task tasks inductionHypothesis =>
      intro rest count below stack
      obtain ⟨here, others⟩ := forall_mem_cons.mp below
      have pops : walker.Pops answers start count task := by
        rw [Pops, stack]
        rfl
      obtain ⟨below', stack', next⟩ := run_succ_of_pops pops
      have same : below' = tasks ++ rest := (cons.inj (stack'.symm.trans stack)).2
      subst same
      obtain ⟨middle, fromCount, cleared⟩ := levels (walker.pushed task (answers count)).reverse
        (tasks ++ rest) (count + 1)
        (fun child member => Nat.lt_of_lt_of_le
          (lower task _ child (mem_reverse.mp member)) (Nat.lt_succ_iff.mp here))
        (by rw [next])
      obtain ⟨later, fromMiddle, reached⟩ := inductionHypothesis rest middle others cleared
      exact ⟨later, by omega, reached⟩

theorem exists_ended (level : Task → Nat)
    (lower : ∀ task answer, ∀ child ∈ walker.pushed task answer, level child < level task) :
    ∃ count, (walker.run answers start count).stack = [] := by
  have bounded : ∃ bound, ∀ task ∈ start, level task < bound := by
    induction start with
    | nil => exact ⟨0, by simp⟩
    | cons task tasks inductionHypothesis =>
      obtain ⟨bound, below⟩ := inductionHypothesis
      refine ⟨max bound (level task + 1), forall_mem_cons.mpr ⟨by omega, fun other member => ?_⟩⟩
      have := below other member
      omega
  obtain ⟨bound, below⟩ := bounded
  have atStart : (walker.run answers start 0).stack = start ++ [] := (append_nil start).symm
  obtain ⟨later, _, ended⟩ := exists_stack_eq level lower bound start [] 0 below atStart
  exact ⟨later, ended⟩

variable {finish : Nat}

/-- A task on the stack stays there until it is popped. -/
theorem pops_of_mem_stack (ended : (walker.run answers start finish).stack = [])
    (member : task ∈ (walker.run answers start count).stack) (before : count ≤ finish) :
    ∃ index < finish, walker.Pops answers start index task := by
  obtain ⟨distance, rfl⟩ := Nat.exists_eq_add_of_le before
  induction distance generalizing count with
  | zero =>
    rw [Nat.add_zero] at ended
    rw [ended] at member
    cases member
  | succ distance inductionHypothesis =>
    have shift : count + (distance + 1) = count + 1 + distance := by omega
    rw [shift] at ended ⊢
    rcases pops_or_ended walker answers start count with ⟨popped, pops⟩ | already
    · obtain ⟨rest, stack, next⟩ := run_succ_of_pops pops
      rw [stack] at member
      rcases mem_cons.mp member with rfl | below
      · exact ⟨count, by omega, pops⟩
      · exact inductionHypothesis (by rw [next]; exact mem_append_right _ below) ended (by omega)
    · rw [already] at member
      cases member

theorem ended_of_le (ended : (walker.run answers start finish).stack = []) (after : finish ≤ count) : (walker.run answers start count).stack = [] := by
  induction after with
  | refl => exact ended
  | step _ inductionHypothesis =>
    rw [run_succ_of_nil inductionHypothesis]
    exact inductionHypothesis

theorem lt_of_pops (ended : (walker.run answers start finish).stack = [])
    (pops : walker.Pops answers start count task) : count < finish := by
  refine Nat.lt_of_not_le fun after => ?_
  rw [Pops, ended_of_le ended after] at pops
  cases pops

/-- What a popped task pushes is popped in its turn. -/
theorem pops_of_pushed (ended : (walker.run answers start finish).stack = []) {parent : Task}
    (pops : walker.Pops answers start count parent)
    (pushes : task ∈ walker.pushed parent (answers count)) :
    ∃ index < finish, walker.Pops answers start index task := by
  obtain ⟨rest, _, next⟩ := run_succ_of_pops pops
  have member : task ∈ (walker.run answers start (count + 1)).stack := by
    rw [next]
    exact mem_append_left _ (mem_reverse.mpr pushes)
  exact pops_of_mem_stack ended member (lt_of_pops ended pops)

end Walker

end Oryxis.Library

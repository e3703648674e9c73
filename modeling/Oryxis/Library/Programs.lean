/-
This file is about computations over a store that may stop with an error. What
was written before the error stays written: nothing here rolls back by itself.

A program is reasoned about in two ways. Where it matters only what it may have
done, a relation that every step keeps, and that is reflexive and transitive, is
kept by the whole, wherever it stopped. Where its outcome matters, a list of steps
is cut at the first one that is refused: those before it were carried out, and
those after it were not.
-/

import Mathlib.Order.Defs.Unbundled

namespace Oryxis.Library

/-- A computation that reads and writes a store and may stop with an error. -/
abbrev Program (Store Error Value : Type) := ExceptT Error (StateM Store) Value

namespace Program

variable {Store Error Value Result Item : Type}

/-- The outcome of a program, with the store as it leaves it. -/
def execute (program : Program Store Error Value) (store : Store) : Except Error Value × Store :=
  StateT.run (ExceptT.run program) store

@[simp] theorem execute_pure (value : Value) (store : Store) :
    (pure value : Program Store Error Value).execute store = (.ok value, store) := rfl

@[simp] theorem execute_get (store : Store) :
    (get : Program Store Error Store).execute store = (.ok store, store) := rfl

theorem execute_bind (program : Program Store Error Value)
    (next : Value → Program Store Error Result) (store : Store) :
    (program >>= next).execute store =
      match program.execute store with
      | (.ok value, after) => (next value).execute after
      | (.error error, after) => (.error error, after) := by
  change (match program.execute store with
    | (outcome, after) => (ExceptT.bindCont next outcome).run after) = _
  obtain ⟨outcome, after⟩ := program.execute store
  cases outcome <;> rfl

variable {program : Program Store Error Value} {store after : Store}

theorem execute_bind_of_ok (next : Value → Program Store Error Result) {value : Value}
    (done : program.execute store = (.ok value, after)) :
    (program >>= next).execute store = (next value).execute after := by
  rw [execute_bind, done]

variable {error : Error}

theorem execute_bind_of_error (next : Value → Program Store Error Result)
    (refused : program.execute store = (.error error, after)) :
    (program >>= next).execute store = (.error error, after) := by
  rw [execute_bind, refused]

theorem execute_forM_cons (step : Item → Program Store Error PUnit) (item : Item)
    (items : List Item) (store : Store) :
    (List.forM (item :: items) step).execute store =
      match (step item).execute store with
      | (.ok _, after) => (List.forM items step).execute after
      | (.error error, after) => (.error error, after) := by
  change (step item >>= fun _ => List.forM items step).execute store = _
  rw [execute_bind]
  obtain ⟨outcome, after⟩ := (step item).execute store
  cases outcome <;> rfl

/-! ### Steps that are carried out whole or not at all -/

/-- A step on the store that may be refused, and then changes nothing. -/
def attempt (step : Store → Except Error Store) : Program Store Error PUnit := do
  match step (← get) with
  | .ok next => set next
  | .error error => throw error

theorem execute_attempt (step : Store → Except Error Store) (store : Store) :
    (attempt step).execute store =
      match step store with
      | .ok next => (.ok PUnit.unit, next)
      | .error error => (.error error, store) := by
  rw [attempt, execute_bind, execute_get]
  dsimp only
  cases step store <;> rfl

variable {step : Store → Except Error Store}

theorem execute_attempt_of_ok {next : Store} (done : step store = .ok next) :
    (attempt step).execute store = (.ok PUnit.unit, next) := by
  rw [execute_attempt, done]

theorem execute_attempt_of_error (refused : step store = .error error) :
    (attempt step).execute store = (.error error, store) := by
  rw [execute_attempt, refused]

/-! ### A result that needs no store -/

def ofExcept : Except Error Value → Program Store Error Value
  | .ok value => pure value
  | .error error => throw error

theorem execute_ofExcept (result : Except Error Value) (store : Store) :
    (ofExcept result).execute store = (result, store) := by
  cases result <;> rfl

/-! ### What a program does, where it is not stopped -/

/-- On a store with `holds`, the program is carried out exactly where `accepts` holds, and then has
the effect `effect`, which keeps `holds`. -/
structure Does (holds : Store → Prop) (program : Program Store Error PUnit)
    (accepts : Store → Prop) (effect : Store → Store) : Prop where
  done : ∀ store, holds store → accepts store →
    program.execute store = (.ok PUnit.unit, effect store)
  kept : ∀ store, holds store → accepts store → holds (effect store)
  stopped : ∀ store, holds store → ¬ accepts store →
    ∃ error after, program.execute store = (.error error, after)

namespace Does

variable {holds : Store → Prop} {first second : Program Store Error PUnit}
  {accepts next : Store → Prop} {effect later : Store → Store}

protected theorem pure : Does holds (pure PUnit.unit : Program Store Error PUnit) (fun _ => True)
    (fun store => store) where
  done _ _ _ := rfl
  kept _ before _ := before
  stopped _ _ refused := absurd trivial refused

protected theorem throw (error : Error) : Does holds (throw error : Program Store Error PUnit)
    (fun _ => False) (fun store => store) where
  done _ _ impossible := impossible.elim
  kept _ _ impossible := impossible.elim
  stopped store _ _ := ⟨error, store, rfl⟩

/-- Two programs one after the other: the second is met by what the first has done. -/
theorem seq (one : Does holds first accepts effect) (two : Does holds second next later) :
    Does holds (first >>= fun _ => second) (fun store => accepts store ∧ next (effect store))
      (fun store => later (effect store)) where
  done store before accepted := by
    rw [execute_bind_of_ok _ (one.done store before accepted.1)]
    exact two.done _ (one.kept store before accepted.1) accepted.2
  kept store before accepted := two.kept _ (one.kept store before accepted.1) accepted.2
  stopped store before refused := by
    by_cases accepted : accepts store
    · rw [execute_bind_of_ok _ (one.done store before accepted)]
      exact two.stopped _ (one.kept store before accepted) fun also => refused ⟨accepted, also⟩
    · obtain ⟨error, after, failed⟩ := one.stopped store before accepted
      exact ⟨error, after, execute_bind_of_error _ failed⟩

/-- Weaker descriptions of the same program. -/
theorem congr (one : Does holds first accepts effect)
    (sameAccepts : ∀ store, holds store → (next store ↔ accepts store))
    (sameEffect : ∀ store, holds store → accepts store → later store = effect store) :
    Does holds first next later where
  done store before accepted := by
    rw [sameEffect store before ((sameAccepts store before).mp accepted)]
    exact one.done store before ((sameAccepts store before).mp accepted)
  kept store before accepted := by
    rw [sameEffect store before ((sameAccepts store before).mp accepted)]
    exact one.kept store before ((sameAccepts store before).mp accepted)
  stopped store before refused :=
    one.stopped store before fun accepted => refused ((sameAccepts store before).mpr accepted)

/-- A list of steps, none of which decides whether a later one is accepted. -/
theorem forM {step : Item → Program Store Error PUnit} {accepts : Item → Store → Prop}
    {effect : Item → Store → Store} {items : List Item}
    (each : ∀ item ∈ items, Does holds (step item) (accepts item) (effect item))
    (steady : items.Pairwise fun earlier later => ∀ store, holds store → accepts earlier store →
      (accepts later (effect earlier store) ↔ accepts later store)) :
    Does holds (List.forM items step) (fun store => ∀ item ∈ items, accepts item store)
      (fun store => items.foldl (fun store item => effect item store) store) := by
  induction items with
  | nil =>
    exact ⟨fun _ _ _ => rfl, fun _ before _ => before, fun _ _ refused => absurd (by simp) refused⟩
  | cons item items inductionHypothesis =>
    obtain ⟨apart, steady⟩ := List.pairwise_cons.mp steady
    have both := (each item (List.mem_cons_self ..)).seq
      (inductionHypothesis (fun other member => each other (List.mem_cons_of_mem _ member)) steady)
    refine both.congr (fun store before => ?_) fun _ _ _ => rfl
    rw [List.forall_mem_cons]
    refine and_congr_right fun accepted => ?_
    exact forall₂_congr fun other member => (apart other member store before accepted).symm

end Does

end Program

end Oryxis.Library

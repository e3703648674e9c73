/-
This file is about programs that issue one statement after the other to an engine
that may refuse any of them.

A script is such a program with its statements in the open: each one changes the
store or is refused by a constraint, and the rest of the script depends on the
store it leaves. `carryOut` runs a script on an engine that goes along with
everything; `execute` runs it on one that refuses some statements, named by their
position. Nothing rolls back: a script that is stopped leaves what it has written.

Where a script can be stopped is where it issues a statement, so the list of the
stores it issues statements at says all there is to say about engines that refuse.
A script that issues them all at the store it started from is one that no refusal
can leave half-done.
-/

import Mathlib.Data.List.Basic

namespace Oryxis.Library

open List

/-- A program of statements. Each statement changes the store or breaks a constraint of it. -/
inductive Script (Store Error Value : Type) where
  | done (value : Value)
  | fail (error : Error)
  | statement (change : Store → Except Error Store) (next : Store → Script Store Error Value)

namespace Script

variable {Store Error Value Result Item : Type}

protected def bind : Script Store Error Value → (Value → Script Store Error Result) →
    Script Store Error Result
  | done value, next => next value
  | fail error, _ => fail error
  | statement change rest, next => statement change fun store => (rest store).bind next

instance : Monad (Script Store Error) where
  pure := done
  bind := Script.bind

/-- A statement that changes the store. -/
def write (change : Store → Except Error Store) : Script Store Error PUnit :=
  statement change fun _ => done PUnit.unit

/-- A statement that changes the store and that no constraint of it refuses. -/
def alter (change : Store → Store) : Script Store Error PUnit :=
  write fun store => .ok (change store)

/-- A statement that only reads it. -/
def select (read : Store → Value) : Script Store Error Value :=
  statement (fun store => .ok store) fun store => done (read store)

/-- The run on an engine that goes along with every statement. -/
def carryOut : Script Store Error Value → Store → Except Error Value × Store
  | done value, store => (.ok value, store)
  | fail error, store => (.error error, store)
  | statement change next, store =>
    match change store with
    | .ok after => (next after).carryOut after
    | .error error => (.error error, store)

/-- The stores at which that run issues a statement. -/
def stops : Script Store Error Value → Store → List Store
  | done _, _ => []
  | fail _, _ => []
  | statement change next, store =>
    store :: match change store with
      | .ok after => (next after).stops after
      | .error _ => []

/-- The run on an engine that refuses some statements; `turn` is the number of those before. -/
def execute (refuses : Nat → Bool) (refusal : Error) :
    Nat → Script Store Error Value → Store → Except Error Value × Store
  | _, done value, store => (.ok value, store)
  | _, fail error, store => (.error error, store)
  | turn, statement change next, store =>
    if refuses turn then (.error refusal, store)
    else
      match change store with
      | .ok after => (next after).execute refuses refusal (turn + 1) after
      | .error error => (.error error, store)

/-! ### A script after another -/

@[simp] theorem carryOut_pure (value : Value) (store : Store) :
    (pure value : Script Store Error Value).carryOut store = (.ok value, store) := rfl

@[simp] theorem stops_pure (value : Value) (store : Store) :
    (pure value : Script Store Error Value).stops store = [] := rfl

@[simp] theorem carryOut_fail (error : Error) (store : Store) :
    (fail error : Script Store Error Value).carryOut store = (.error error, store) := rfl

@[simp] theorem carryOut_select (read : Store → Value) (store : Store) :
    (select read : Script Store Error Value).carryOut store = (.ok (read store), store) := rfl

@[simp] theorem stops_select (read : Store → Value) (store : Store) :
    (select read : Script Store Error Value).stops store = [store] := rfl

variable {change : Store → Except Error Store} {store after : Store}

theorem carryOut_statement_of_ok (next : Store → Script Store Error Value)
    (changed : change store = .ok after) :
    (statement change next).carryOut store = (next after).carryOut after := by
  rw [carryOut, changed]

variable {error : Error}

theorem carryOut_statement_of_error (next : Store → Script Store Error Value)
    (broken : change store = .error error) :
    (statement change next).carryOut store = (.error error, store) := by
  rw [carryOut, broken]

theorem stops_statement_of_ok (next : Store → Script Store Error Value)
    (changed : change store = .ok after) :
    (statement change next).stops store = store :: (next after).stops after := by
  rw [stops, changed]

theorem stops_statement_of_error (next : Store → Script Store Error Value)
    (broken : change store = .error error) :
    (statement change next).stops store = [store] := by
  rw [stops, broken]

theorem carryOut_write_of_ok (changed : change store = .ok after) :
    (write change).carryOut store = (.ok PUnit.unit, after) :=
  carryOut_statement_of_ok _ changed

@[simp] theorem stops_write (change : Store → Except Error Store) (store : Store) :
    (write change).stops store = [store] := by
  cases changed : change store with
  | error error => exact stops_statement_of_error _ changed
  | ok after => exact stops_statement_of_ok _ changed

@[simp] theorem carryOut_alter (change : Store → Store) (store : Store) :
    (alter change : Script Store Error PUnit).carryOut store = (.ok PUnit.unit, change store) := rfl

@[simp] theorem stops_alter (change : Store → Store) (store : Store) :
    (alter change : Script Store Error PUnit).stops store = [store] := rfl

theorem carryOut_bind (script : Script Store Error Value)
    (next : Value → Script Store Error Result) (store : Store) :
    (script >>= next).carryOut store =
      match script.carryOut store with
      | (.ok value, after) => (next value).carryOut after
      | (.error error, after) => (.error error, after) := by
  change (script.bind next).carryOut store = _
  induction script generalizing store with
  | done value => rfl
  | fail error => rfl
  | statement change rest inductionHypothesis =>
    rw [Script.bind]
    cases changed : change store with
    | error error =>
      rw [carryOut_statement_of_error _ changed, carryOut_statement_of_error _ changed]
    | ok after =>
      rw [carryOut_statement_of_ok _ changed, carryOut_statement_of_ok _ changed]
      exact inductionHypothesis after after

theorem stops_bind (script : Script Store Error Value)
    (next : Value → Script Store Error Result) (store : Store) :
    (script >>= next).stops store = script.stops store ++
      match script.carryOut store with
      | (.ok value, after) => (next value).stops after
      | (.error _, _) => [] := by
  change (script.bind next).stops store = _
  induction script generalizing store with
  | done value => rfl
  | fail error => rfl
  | statement change rest inductionHypothesis =>
    rw [Script.bind]
    cases changed : change store with
    | error error =>
      rw [stops_statement_of_error _ changed, stops_statement_of_error _ changed,
        carryOut_statement_of_error _ changed]
      rfl
    | ok after =>
      rw [stops_statement_of_ok _ changed, stops_statement_of_ok _ changed,
        carryOut_statement_of_ok _ changed, cons_append]
      exact congrArg (List.cons store) (inductionHypothesis after after)

@[simp] theorem stops_bind_pure (script : Script Store Error Value) (result : Value → Result)
    (store : Store) :
    (script >>= fun value => pure (result value)).stops store = script.stops store := by
  rw [stops_bind]
  rcases script.carryOut store with ⟨error | value, after⟩
  · exact append_nil _
  · exact append_nil _

variable {value : Value}

theorem carryOut_bind_of_ok {script : Script Store Error Value}
    (next : Value → Script Store Error Result) (done : script.carryOut store = (.ok value, after)) :
    (script >>= next).carryOut store = (next value).carryOut after := by
  rw [carryOut_bind, done]

theorem stops_bind_of_ok {script : Script Store Error Value}
    (next : Value → Script Store Error Result) (done : script.carryOut store = (.ok value, after)) :
    (script >>= next).stops store = script.stops store ++ (next value).stops after := by
  rw [stops_bind, done]

/-! ### One script for each item of a list -/

@[simp] theorem forM_nil (step : Item → Script Store Error PUnit) :
    List.forM [] step = pure PUnit.unit := rfl

theorem forM_cons (step : Item → Script Store Error PUnit) (item : Item) (items : List Item) :
    List.forM (item :: items) step = step item >>= fun _ => List.forM items step := rfl

theorem exists_carryOut_forM {step : Item → Script Store Error PUnit}
    (each : ∀ item store, ∃ after, (step item).carryOut store = (.ok PUnit.unit, after))
    (items : List Item) (store : Store) :
    ∃ after, (List.forM items step).carryOut store = (.ok PUnit.unit, after) := by
  induction items generalizing store with
  | nil => exact ⟨store, rfl⟩
  | cons item items inductionHypothesis =>
    obtain ⟨between, done⟩ := each item store
    rw [forM_cons, carryOut_bind_of_ok _ done]
    exact inductionHypothesis between

/-! ### Engines that refuse -/

/-- A run that is stopped is stopped where it issues a statement, or where it fails by itself. -/
theorem stopped_of_execute {refuses : Nat → Bool} {refusal : Error} {turn : Nat}
    {script : Script Store Error Value}
    (stopped : script.execute refuses refusal turn store = (.error error, after)) :
    after ∈ script.stops store ∨ script.carryOut store = (.error error, after) := by
  induction script generalizing turn store with
  | done result => cases stopped
  | fail own => exact .inr stopped
  | statement change next inductionHypothesis =>
    unfold execute at stopped
    unfold stops carryOut
    split at stopped
    · cases stopped
      exact .inl (mem_cons_self ..)
    · cases changed : change store with
      | error own =>
        rw [changed] at stopped
        exact .inr stopped
      | ok between =>
        rw [changed] at stopped
        exact (inductionHypothesis between stopped).imp_left (mem_cons_of_mem _)

/-- Wherever a run issues a statement, some engine stops it. -/
theorem exists_execute_of_mem_stops {script : Script Store Error Value} {stop : Store}
    (refusal : Error) (turn : Nat) (member : stop ∈ script.stops store) :
    ∃ refuses, script.execute refuses refusal turn store = (.error refusal, stop) := by
  -- The engine refuses the statement so many places after the first one.
  suffices refusedAt : ∃ place, ∀ start, script.execute (fun position => position = start + place)
      refusal start store = (.error refusal, stop) by
    obtain ⟨place, refused⟩ := refusedAt
    exact ⟨_, refused turn⟩
  induction script generalizing store with
  | done value => cases member
  | fail error => cases member
  | statement change next inductionHypothesis =>
    unfold stops at member
    rcases mem_cons.mp member with rfl | later
    · refine ⟨0, fun start => ?_⟩
      unfold execute
      rw [if_pos (by simp)]
    · cases changed : change store with
      | error error =>
        rw [changed] at later
        cases later
      | ok after =>
        rw [changed] at later
        obtain ⟨place, refused⟩ := inductionHypothesis after later
        refine ⟨place + 1, fun start => ?_⟩
        unfold execute
        rw [if_neg (by simp), changed]
        have further := refused (start + 1)
        simp only [Nat.add_right_comm start 1 place] at further
        exact further

/-- Whatever an engine refuses, a run that is stopped leaves the store as good as untouched: this
is what it is for a script to be that at every statement. -/
theorem forall_execute_iff {Untouched : Store → Prop} {spared : Prop}
    {script : Script Store Error Value} (refusal : Error)
    (stops : (∀ stop ∈ script.stops store, Untouched stop) ↔ spared)
    (ends : spared → ∀ error after, script.carryOut store = (.error error, after) →
      Untouched after) :
    (∀ refuses error after, script.execute refuses refusal 0 store = (.error error, after) →
        Untouched after) ↔ spared := by
  constructor
  · intro untouched
    refine stops.mp fun stop member => ?_
    obtain ⟨refuses, stopped⟩ := exists_execute_of_mem_stops refusal 0 member
    exact untouched refuses refusal stop stopped
  · intro holds refuses error after stopped
    rcases stopped_of_execute stopped with member | failed
    · exact stops.mpr holds after member
    · exact ends holds error after failed

/-! ### Scripts that leave a store as good as untouched -/

section Untouched

variable {Untouched : Store → Prop}

/-- From a store that is as good as untouched, a script that is `quiet` goes through and leaves it
so at every statement; one that is not issues a statement where it is not. -/
structure Quiet (Untouched : Store → Prop) (script : Script Store Error Value) (quiet : Prop) :
    Prop where
  kept : quiet → ∀ store, Untouched store → ∃ value after,
    script.carryOut store = (.ok value, after) ∧ Untouched after ∧
      ∀ stop ∈ script.stops store, Untouched stop
  touched : ¬ quiet → ∀ store, Untouched store → ∃ stop ∈ script.stops store, ¬ Untouched stop

/-- What it is for a script to leave such a store so at every statement, and so if it fails. -/
structure Spares (Untouched : Store → Prop) (script : Script Store Error Value) (spared : Prop) :
    Prop where
  stops : ∀ store, Untouched store → ((∀ stop ∈ script.stops store, Untouched stop) ↔ spared)
  ends : spared → ∀ store, Untouched store → ∀ error after,
    script.carryOut store = (.error error, after) → Untouched after

namespace Quiet

variable {quiet later : Prop} {script : Script Store Error Value}

protected theorem pure (value : Value) :
    Quiet Untouched (pure value : Script Store Error Value) True where
  kept _ store untouched := ⟨value, store, rfl, untouched, by simp⟩
  touched impossible := absurd trivial impossible

theorem congr {other : Prop} (isQuiet : Quiet Untouched script quiet) (same : quiet ↔ other) :
    Quiet Untouched script other where
  kept holds := isQuiet.kept (same.mpr holds)
  touched fails := isQuiet.touched (mt same.mp fails)

theorem stops_bind_of_quiet (isQuiet : Quiet Untouched script quiet) (holds : quiet)
    (next : Value → Script Store Error Result) {store : Store} (untouched : Untouched store) :
    ∃ value after, (script >>= next).carryOut store = (next value).carryOut after ∧
      (script >>= next).stops store = script.stops store ++ (next value).stops after ∧
      Untouched after ∧ ∀ stop ∈ script.stops store, Untouched stop := by
  obtain ⟨value, after, done, stillUntouched, stops⟩ := isQuiet.kept holds store untouched
  exact ⟨value, after, carryOut_bind_of_ok next done, stops_bind_of_ok next done, stillUntouched,
    stops⟩

variable {next : Value → Script Store Error Result}

/-- The second script only runs where the first one is quiet. -/
protected theorem bind (first : Quiet Untouched script quiet)
    (second : quiet → ∀ value, Quiet Untouched (next value) later) :
    Quiet Untouched (script >>= next) (quiet ∧ later) where
  kept both store untouched := by
    obtain ⟨value, after, done, stops, stillUntouched, before⟩ :=
      first.stops_bind_of_quiet both.1 next untouched
    obtain ⟨result, last, lastDone, lastUntouched, rest⟩ :=
      (second both.1 value).kept both.2 after stillUntouched
    refine ⟨result, last, done.trans lastDone, lastUntouched, ?_⟩
    rw [stops]
    exact forall_mem_append.mpr ⟨before, rest⟩
  touched notBoth store untouched := by
    by_cases holds : quiet
    · obtain ⟨value, after, _, stops, stillUntouched, _⟩ :=
        first.stops_bind_of_quiet holds next untouched
      obtain ⟨stop, member, isTouched⟩ := (second holds value).touched
        (fun also => notBoth ⟨holds, also⟩) after stillUntouched
      exact ⟨stop, stops ▸ mem_append_right _ member, isTouched⟩
    · obtain ⟨stop, member, isTouched⟩ := first.touched holds store untouched
      exact ⟨stop, stops_bind script next store ▸ mem_append_left _ member, isTouched⟩

protected theorem forM {step : Item → Script Store Error PUnit} {quiet : Item → Prop}
    {items : List Item} (each : ∀ item ∈ items, Quiet Untouched (step item) (quiet item)) :
    Quiet Untouched (List.forM items step) (∀ item ∈ items, quiet item) := by
  induction items with
  | nil => exact (Quiet.pure PUnit.unit).congr (iff_of_true trivial (by simp))
  | cons item items inductionHypothesis =>
    rw [forM_cons]
    have rest := inductionHypothesis fun other member => each other (mem_cons_of_mem _ member)
    refine ((each item (mem_cons_self ..)).bind fun _ _ => rest).congr ?_
    exact forall_mem_cons.symm

theorem bind_spares (first : Quiet Untouched script quiet)
    (second : quiet → ∀ value, Spares Untouched (next value) later) :
    Spares Untouched (script >>= next) (quiet ∧ later) where
  stops store untouched := by
    by_cases holds : quiet
    · obtain ⟨value, after, _, stops, stillUntouched, before⟩ :=
        first.stops_bind_of_quiet holds next untouched
      rw [stops, forall_mem_append, (second holds value).stops after stillUntouched,
        and_iff_right holds]
      exact and_iff_right before
    · obtain ⟨stop, member, isTouched⟩ := first.touched holds store untouched
      refine iff_of_false (fun all => isTouched (all stop ?_)) fun both => holds both.1
      exact stops_bind script next store ▸ mem_append_left _ member
  ends both store untouched error last failed := by
    obtain ⟨value, after, done, _, stillUntouched, _⟩ :=
      first.stops_bind_of_quiet both.1 next untouched
    exact (second both.1 value).ends both.2 after stillUntouched error last (done.symm.trans failed)

end Quiet

theorem Spares.congr {script : Script Store Error Value} {spared other : Prop}
    (spares : Spares Untouched script spared) (same : spared ↔ other) :
    Spares Untouched script other where
  stops store untouched := (spares.stops store untouched).trans same
  ends holds := spares.ends (same.mpr holds)

/-- A script that issues a statement issues the first one at the store it is run on. -/
theorem mem_stops_of_ne_nil {script : Script Store Error Value} {store : Store}
    (issues : script.stops store ≠ []) : store ∈ script.stops store := by
  cases script with
  | done value => exact absurd rfl issues
  | fail error => exact absurd rfl issues
  | statement change next =>
    rw [stops]
    exact mem_cons_self ..

end Untouched

end Script

end Oryxis.Library

/-
This file is the copy of one table out of a damaged file: batches read upward by rowid, and,
where the engine stops answering, a search for the next key it answers from.

The engine is whatever it is: for each of its calls, and each key it is asked from, it gives
rows and says whether it stopped inside them, or a rowid, or nothing, or an error. The loop
is taken apart at these calls, so that a step makes one of them.
-/

import Mathlib.Algebra.Ring.Int.Defs
import Mathlib.Order.MinMax

namespace Oryxis.Rebuild

/-! ### Rowids -/

def minRowid : Int := -2 ^ 63

def maxRowid : Int := 2 ^ 63 - 1

def IsRowid (rowid : Int) : Prop := minRowid ≤ rowid ∧ rowid ≤ maxRowid

/-- Arithmetic that saturates. -/
def saturate (rowid : Int) : Int := max minRowid (min rowid maxRowid)

/-- Rows read per `SELECT`. -/
def batch : Nat := 256

/-! ### The engine -/

/-- What a probe answers: the first rowid at or after a key, nothing there, or an error. -/
inductive Answer where
  | found (rowid : Int)
  | nothing
  | refused
  deriving DecidableEq, Repr

/-- How an insert ends. A key that is present was copied before. -/
inductive Inserted where
  | copied
  | present
  | rejected
  | failed

/-- A database: what each call gives. -/
structure Engine (Values : Type) where
  readBatch : Nat → Int → List (Int × Values) × Bool
  probe : Nat → Int → Answer
  insert : Nat → List (Int × Values) → Int × Values → Inserted
  readBatch_isRowid : ∀ call start row, row ∈ (readBatch call start).1 → IsRowid row.1
  probe_isRowid : ∀ call key rowid, probe call key = .found rowid → IsRowid rowid

/-! ### The copy -/

structure TableRebuild where
  copied : Nat
  unreadableStretches : Nat
  rejected : Nat

/-- Where the copy stands before its next call. In a search `walked` is the key nothing at or below
is accepted from. -/
inductive CopyPhase where
  | reading
  | doubling (walked floor failedAt step : Int)
  | bisecting (walked failedAt hi found : Int)
  | finished
  | writeFailed
  deriving DecidableEq, Repr

structure CopyState (Values : Type) where
  call : Nat
  last : Int
  start : Int
  written : List (Int × Values)
  report : TableRebuild
  phase : CopyPhase

variable {Values : Type}

/-- The rows of a batch, one insert after the other. A failed write ends the rebuild. -/
def writeRows (engine : Engine Values) (call : Nat) :
    List (Int × Values) → List (Int × Values) → TableRebuild →
      Option (List (Int × Values) × TableRebuild)
  | [], written, report => some (written, report)
  | row :: rows, written, report =>
    match engine.insert call written row with
    | .copied =>
      writeRows engine call rows (written ++ [row]) { report with copied := report.copied + 1 }
    | .present => writeRows engine call rows written report
    | .rejected =>
      writeRows engine call rows written { report with rejected := report.rejected + 1 }
    | .failed => none

/-- The highest rowid met. -/
def advance (rows : List (Int × Values)) (last : Int) : Int :=
  rows.foldl (fun last row => if row.1 > last then row.1 else last) last

/-- A probe, where a rowid that was walked past is no answer. -/
def ask (engine : Engine Values) (call : Nat) (walked key : Int) : Answer :=
  match engine.probe call key with
  | .found rowid => if rowid > walked then .found rowid else .refused
  | .nothing => .nothing
  | .refused => .refused

/-- `next_readable` starts from the walked key, or from 0 while nothing was copied. -/
def searchFrom (walked : Int) : CopyPhase :=
  let floor := if walked = minRowid then 0 else walked
  .doubling walked floor floor 1

namespace CopyState

def called (state : CopyState Values) (phase : CopyPhase) : CopyState Values :=
  { state with call := state.call + 1, phase := phase }

/-- A search has found where to read on from. -/
def readFrom (state : CopyState Values) (start : Int) : CopyState Values :=
  { state with start := start, phase := .reading }

/-- One round of the loop, up to its search. -/
def readOn (engine : Engine Values) (state : CopyState Values) : CopyState Values :=
  let rows := (engine.readBatch state.call state.start).1
  let failed := (engine.readBatch state.call state.start).2
  match writeRows engine state.call rows state.written state.report with
  | none => state.called .writeFailed
  | some (written, report) =>
    let last := advance rows state.last
    let read := { state with last := last, written := written, report := report }
    if !failed && decide (rows.length < batch) then read.called .finished
    else if !failed && decide (last > state.last) then
      { read.called .reading with start := saturate (last + 1) }
    else
      let walked := if last ≤ state.last ∧ state.start > last then state.start else last
      { read.called (searchFrom walked) with
        report := { report with unreadableStretches := report.unreadableStretches + 1 } }

/-- The next call of the engine, and what follows from it. -/
def step (engine : Engine Values) (state : CopyState Values) : CopyState Values :=
  match state.phase with
  | .reading => state.readOn engine
  | .doubling walked floor failedAt step =>
    let key := saturate (floor + step)
    match ask engine state.call walked key with
    | .found rowid => state.called (.bisecting walked failedAt key rowid)
    | .nothing => state.called .finished
    | .refused =>
      if key = maxRowid then state.called .finished
      else state.called (.doubling walked floor key (saturate (step * 2)))
  | .bisecting walked failedAt hi found =>
    if hi - failedAt > 1 then
      let mid := failedAt + (hi - failedAt) / 2
      match ask engine state.call walked mid with
      | .found rowid => state.called (.bisecting walked failedAt mid rowid)
      | .nothing => { state.readFrom found with call := state.call + 1 }
      | .refused => state.called (.bisecting walked mid hi found)
    else state.readFrom found
  | .finished | .writeFailed => state

/-- The copy has come to its end, well or not. -/
def hasReturned (state : CopyState Values) : Bool :=
  state.phase = .finished || state.phase = .writeFailed

/-- The start of `copy_table`, over what the new table holds by then. -/
def initial (written : List (Int × Values)) : CopyState Values :=
  ⟨0, minRowid, minRowid, written, ⟨0, 0, 0⟩, .reading⟩

end CopyState

/-! ### What a step of a search does -/

variable {engine : Engine Values} {state : CopyState Values}

/-- The key a step of the narrowing asks from. -/
def middle (failedAt hi : Int) : Int := failedAt + (hi - failedAt) / 2

inductive DoublingStep (engine : Engine Values) (state : CopyState Values)
    (walked floor failedAt step : Int) (next : CopyState Values) : Prop where
  | found (rowid : Int)
      (answer : ask engine state.call walked (saturate (floor + step)) = .found rowid)
      (comes : next = state.called (.bisecting walked failedAt (saturate (floor + step)) rowid))
  | nothing (answer : ask engine state.call walked (saturate (floor + step)) = .nothing)
      (comes : next = state.called .finished)
  | last (answer : ask engine state.call walked (saturate (floor + step)) = .refused)
      (isLast : saturate (floor + step) = maxRowid) (comes : next = state.called .finished)
  | refused (answer : ask engine state.call walked (saturate (floor + step)) = .refused)
      (notLast : saturate (floor + step) ≠ maxRowid)
      (comes : next = state.called
        (.doubling walked floor (saturate (floor + step)) (saturate (step * 2))))

inductive BisectingStep (engine : Engine Values) (state : CopyState Values)
    (walked failedAt hi found : Int) (next : CopyState Values) : Prop where
  | found (rowid : Int) (wide : 1 < hi - failedAt)
      (answer : ask engine state.call walked (middle failedAt hi) = .found rowid)
      (comes : next = state.called (.bisecting walked failedAt (middle failedAt hi) rowid))
  | nothing (wide : 1 < hi - failedAt)
      (answer : ask engine state.call walked (middle failedAt hi) = .nothing)
      (comes : next = { state.readFrom found with call := state.call + 1 })
  | refused (wide : 1 < hi - failedAt)
      (answer : ask engine state.call walked (middle failedAt hi) = .refused)
      (comes : next = state.called (.bisecting walked (middle failedAt hi) hi found))
  | narrow (narrow : hi - failedAt ≤ 1) (comes : next = state.readFrom found)

theorem doublingStep (engine : Engine Values) {walked floor failedAt step : Int}
    (phase : state.phase = .doubling walked floor failedAt step) :
    DoublingStep engine state walked floor failedAt step (state.step engine) := by
  unfold CopyState.step
  rw [phase]
  simp only []
  cases answer : ask engine state.call walked (saturate (floor + step)) with
  | found rowid => exact .found rowid answer rfl
  | nothing => exact .nothing answer rfl
  | refused =>
    by_cases isLast : saturate (floor + step) = maxRowid
    · exact .last answer isLast (if_pos isLast)
    · exact .refused answer isLast (if_neg isLast)

theorem bisectingStep (engine : Engine Values) {walked failedAt hi found : Int}
    (phase : state.phase = .bisecting walked failedAt hi found) :
    BisectingStep engine state walked failedAt hi found (state.step engine) := by
  unfold CopyState.step
  rw [phase]
  simp only []
  by_cases wide : hi - failedAt > 1
  · rw [if_pos wide]
    cases answer : ask engine state.call walked (failedAt + (hi - failedAt) / 2) with
    | found rowid => exact .found rowid wide answer rfl
    | nothing => exact .nothing wide answer rfl
    | refused => exact .refused wide answer rfl
  · rw [if_neg wide]
    exact .narrow (Int.not_lt.mp wide) rfl

theorem step_reading (engine : Engine Values) (phase : state.phase = .reading) :
    state.step engine = state.readOn engine := by
  unfold CopyState.step
  rw [phase]

theorem hasReturned_cases (returned : state.hasReturned = true) :
    state.phase = .finished ∨ state.phase = .writeFailed := by
  simpa [CopyState.hasReturned] using returned

theorem step_returned (returned : state.hasReturned = true) : state.step engine = state := by
  unfold CopyState.step
  rcases hasReturned_cases returned with phase | phase <;> rw [phase]

end Oryxis.Rebuild

/-
This file is about readers that take records off the front of a stream.

A reader finds the first record of what it has, with what is left behind it, or finds that none is
there yet. What it found stays found when more arrives. Then the records of a stream, and what is
left, do not depend on how the stream is cut: reading all the records of a first part and then those
of what was left, with the second part behind it, is reading those of both parts.
-/

import Mathlib.Data.List.Basic

namespace Oryxis.Library

/-- What finds the first record of a text. -/
structure RecordReader (Letter : Type) where
  first : List Letter → Option (List Letter × List Letter)
  shorter : ∀ {text record rest}, first text = some (record, rest) → rest.length < text.length
  stable : ∀ {text record rest}, first text = some (record, rest) →
    ∀ more, first (text ++ more) = some (record, rest ++ more)

namespace RecordReader

variable {Letter : Type}

/-- All records of a text, and what is left behind them. -/
def records (reader : RecordReader Letter) (text : List Letter) :
    List (List Letter) × List Letter :=
  match _found : reader.first text with
  | none => ([], text)
  | some (record, rest) =>
    let others := reader.records rest
    (record :: others.1, others.2)
termination_by text.length
decreasing_by exact reader.shorter _found

variable {reader : RecordReader Letter} {text record rest : List Letter}

theorem records_of_none (none : reader.first text = none) : reader.records text = ([], text) := by
  rw [records]
  split
  · rfl
  · rename_i found
    rw [none] at found
    cases found

theorem records_of_some (found : reader.first text = some (record, rest)) :
    reader.records text = (record :: (reader.records rest).1, (reader.records rest).2) := by
  rw [records]
  split
  · rename_i none
    rw [found] at none
    cases none
  · rename_i other
    rw [found] at other
    cases other
    rfl

/-- Records are found at the front or not at all. -/
theorem records_induction {motive : List Letter → Prop}
    (none : ∀ text, reader.first text = none → motive text)
    (some : ∀ text record rest, reader.first text = .some (record, rest) → motive rest →
      motive text) (text : List Letter) : motive text := by
  induction length : text.length using Nat.strongRecOn generalizing text with
  | ind length inductionHypothesis =>
    cases found : reader.first text with
    | none => exact none text found
    | some pair =>
      exact some text pair.1 pair.2 found
        (inductionHypothesis _ (length ▸ reader.shorter found) pair.2 rfl)

/-- The records of two parts are those of the first, and those of what was left and the second. -/
theorem records_append (more : List Letter) (text : List Letter) :
    reader.records (text ++ more) =
      ((reader.records text).1 ++ (reader.records ((reader.records text).2 ++ more)).1,
        (reader.records ((reader.records text).2 ++ more)).2) := by
  induction text using reader.records_induction with
  | none text none => rw [records_of_none none]; rfl
  | some text record rest found inductionHypothesis =>
    rw [records_of_some found, records_of_some (reader.stable found more), inductionHypothesis]
    rfl

/-- What is left has no record. -/
theorem first_rest (text : List Letter) : reader.first (reader.records text).2 = none := by
  induction text using reader.records_induction with
  | none text none => rwa [records_of_none none]
  | some text record rest found inductionHypothesis => rwa [records_of_some found]

end RecordReader

end Oryxis.Library

/-
This file is a file of frames, each behind its length in four bytes, as it is read back when a
write was cut short.

The reader stops at the first frame that is not whole or does not decode. What was written whole
in front of it is read; what is written behind a torn frame is not promised, since the bytes of
the next frame stand where the rest of the torn one is expected.
-/

import Oryxis.Library.Cursor

namespace Oryxis.Library

open List

/-- A payload behind its length. Only the low four bytes of the length are written. -/
def frame (payload : List UInt8) : List UInt8 := toBe 4 payload.length ++ payload

variable {Value : Type}

/-- The values read up to the first frame that is torn or does not decode. -/
def readFrames (decode : List UInt8 → Option Value) (data : List UInt8) : List Value :=
  if _short : data.length < 4 then []
  else
    let length := fromBe (data.take 4)
    let after := data.drop 4
    if after.length < length then []
    else
      match decode (after.take length) with
      | none => []
      | some value => value :: readFrames decode (after.drop length)
termination_by data.length
decreasing_by
  rw [length_drop, length_drop]
  omega

theorem length_frame (payload : List UInt8) : (frame payload).length = 4 + payload.length := by
  rw [frame, length_append, length_toBe]

theorem frame_ne_nil (payload : List UInt8) : frame payload ≠ [] := by
  refine ne_nil_of_length_pos ?_
  rw [length_frame]
  omega

theorem take_frame_append (payload rest : List UInt8) :
    (frame payload ++ rest).take 4 = toBe 4 payload.length := by
  rw [frame, append_assoc]
  exact take_left' (length_toBe 4 _)

theorem drop_frame_append (payload rest : List UInt8) :
    (frame payload ++ rest).drop 4 = payload ++ rest := by
  rw [frame, append_assoc]
  exact drop_left' (length_toBe 4 _)

variable {decode : List UInt8 → Option Value}

/-- A whole frame is read, and then what is behind it. -/
theorem readFrames_frame_append {payload : List UInt8} {value : Value}
    (fits : payload.length < 2 ^ 32) (decodes : decode payload = some value) (rest : List UInt8) :
    readFrames decode (frame payload ++ rest) = value :: readFrames decode rest := by
  have enough : ¬(frame payload ++ rest).length < 4 := by
    rw [length_append, length_frame]
    omega
  rw [readFrames, dif_neg enough]
  have size : fromBe (toBe 4 payload.length) = payload.length := fromBe_toBe fits
  simp only [take_frame_append, drop_frame_append, size]
  rw [if_neg (by rw [length_append]; omega), take_left, drop_left, decodes]

/-- A frame that is cut off gives nothing. -/
theorem readFrames_of_torn {payload torn : List UInt8} (fits : payload.length < 2 ^ 32)
    (cut : torn <+: frame payload) (short : torn ≠ frame payload) :
    readFrames decode torn = [] := by
  obtain ⟨missing, whole⟩ := cut
  have lacks : missing ≠ [] := by
    rintro rfl
    exact short (by rw [← whole, append_nil])
  rw [readFrames]
  split_ifs with header
  · rfl
  · have front : torn.take 4 = toBe 4 payload.length := by
      rw [← take_frame_append payload [], append_nil, ← whole,
        take_append_of_le_length (Nat.le_of_not_lt header)]
    have total := congrArg List.length whole
    have positive := length_pos_iff.mpr lacks
    rw [length_append, length_frame] at total
    have size : fromBe (toBe 4 payload.length) = payload.length := fromBe_toBe fits
    simp only [front, size]
    rw [if_pos (by rw [length_drop]; omega)]

/-- Frames that all decode are all read. -/
theorem readFrames_flatMap_append {payloads : List (List UInt8)} {values : List Value}
    (fits : ∀ payload ∈ payloads, payload.length < 2 ^ 32)
    (decodes : payloads.map decode = values.map some) (rest : List UInt8) :
    readFrames decode (payloads.flatMap frame ++ rest) = values ++ readFrames decode rest := by
  induction payloads generalizing values with
  | nil =>
    rw [map_nil, eq_comm, map_eq_nil_iff] at decodes
    subst decodes
    rfl
  | cons payload payloads inductionHypothesis =>
    cases values with
    | nil => cases decodes
    | cons value values =>
      obtain ⟨first, others⟩ := cons_eq_cons.mp decodes
      obtain ⟨fitsFirst, fitsOthers⟩ := forall_mem_cons.mp fits
      rw [flatMap_cons, append_assoc, readFrames_frame_append fitsFirst first,
        inductionHypothesis fitsOthers others]
      rfl

/-! ### A write that is cut short -/

/-- The frames that are whole among the first bytes of a write. -/
def wholeFrames : List (List UInt8) → Nat → List (List UInt8)
  | [], _ => []
  | payload :: payloads, count =>
    if (frame payload).length ≤ count then
      payload :: wholeFrames payloads (count - (frame payload).length)
    else []

/-- The bytes behind the whole frames. -/
def tornBytes : List (List UInt8) → Nat → List UInt8
  | [], _ => []
  | payload :: payloads, count =>
    if (frame payload).length ≤ count then tornBytes payloads (count - (frame payload).length)
    else (frame payload).take count

theorem wholeFrames_isPrefix (payloads : List (List UInt8)) (count : Nat) :
    wholeFrames payloads count <+: payloads := by
  induction payloads generalizing count with
  | nil => exact prefix_refl _
  | cons payload payloads inductionHypothesis =>
    rw [wholeFrames]
    split_ifs
    · exact cons_prefix_cons.mpr ⟨rfl, inductionHypothesis _⟩
    · exact nil_prefix

theorem take_flatMap_frame (payloads : List (List UInt8)) (count : Nat) :
    (payloads.flatMap frame).take count =
      (wholeFrames payloads count).flatMap frame ++ tornBytes payloads count := by
  induction payloads generalizing count with
  | nil => exact take_nil
  | cons payload payloads inductionHypothesis =>
    rw [wholeFrames, tornBytes, flatMap_cons, take_append]
    split_ifs with whole
    · rw [take_of_length_le whole, inductionHypothesis, flatMap_cons,
        append_assoc]
    · rw [Nat.sub_eq_zero_of_le (Nat.le_of_not_le whole), take_zero, append_nil]
      rfl

theorem readFrames_tornBytes {payloads : List (List UInt8)}
    (fits : ∀ payload ∈ payloads, payload.length < 2 ^ 32) (count : Nat) :
    readFrames decode (tornBytes payloads count) = [] := by
  induction payloads generalizing count with
  | nil =>
    rw [tornBytes, readFrames]
    rfl
  | cons payload payloads inductionHypothesis =>
    obtain ⟨fitsFirst, fitsOthers⟩ := forall_mem_cons.mp fits
    rw [tornBytes]
    split_ifs with whole
    · exact inductionHypothesis fitsOthers _
    · refine readFrames_of_torn fitsFirst (List.take_prefix _ _) fun same => whole ?_
      rw [← same, length_take]
      exact Nat.min_le_left _ _

end Oryxis.Library

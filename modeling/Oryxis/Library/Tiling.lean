/-
This file is about an interval of bytes that is written piece by piece, in any order, by
positioned writes. The ranges that are still to be written and the writes that have been
carried out tile the interval when they cover each of its bytes once, taken together, and
nothing else. A write of the beginning of a range keeps the tiling, with what it lacks left
to be written; where nothing is left, each byte of the interval has been written once.
-/

import Mathlib.Data.List.Count
import Oryxis.Library.SparseFile

namespace Oryxis.Library

open List

variable {Byte : Type*}

/-! ### How often an index is covered -/

/-- How many of the ranges cover an index. -/
def coverings (ranges : List Range) (index : Nat) : Nat :=
  ranges.countP fun range => decide (range.offset ≤ index ∧ index < range.offset + range.len)

/-- One inside the interval, and nothing outside. -/
def within (lo hi index : Nat) : Nat := if lo ≤ index ∧ index < hi then 1 else 0

@[simp] theorem coverings_nil (index : Nat) : coverings [] index = 0 := rfl

theorem coverings_cons (range : Range) (ranges : List Range) (index : Nat) :
    coverings (range :: ranges) index =
      within range.offset (range.offset + range.len) index + coverings ranges index := by
  simp only [coverings, countP_cons, decide_eq_true_eq, within]
  exact Nat.add_comm ..

theorem coverings_append (first second : List Range) (index : Nat) :
    coverings (first ++ second) index = coverings first index + coverings second index :=
  countP_append

theorem coverings_of_perm {first second : List Range} (perm : first.Perm second) (index : Nat) :
    coverings first index = coverings second index :=
  perm.countP_eq _

theorem within_self (offset index : Nat) : within offset offset index = 0 :=
  if_neg fun inside => by omega

/-- An interval that is cut in two. -/
theorem within_add {lo middle hi : Nat} (above : lo ≤ middle) (below : middle ≤ hi) (index : Nat) :
    within lo middle index + within middle hi index = within lo hi index := by
  simp only [within]
  split_ifs <;> omega

/-! ### Positioned writes -/

/-- Bytes that are written at an offset. -/
structure Write (Byte : Type*) where
  offset : Nat
  data : List Byte

def Write.at (write : Write Byte) (index : Nat) : Option Byte :=
  if write.offset ≤ index then write.data[index - write.offset]? else none

/-- The bytes that were written at an index. -/
def valuesAt (writes : List (Write Byte)) (index : Nat) : List Byte :=
  writes.filterMap fun write => write.at index

/-- The bytes are those of the source at that offset. -/
def Agrees (source : Nat → Byte) (offset : Nat) (data : List Byte) : Prop :=
  ∀ place byte, data[place]? = some byte → byte = source (offset + place)

/-- Each byte of the interval was written once, as the source has it, and no other byte was. -/
def FillsOnce (source : Nat → Byte) (lo hi : Nat) (writes : List (Write Byte)) : Prop :=
  ∀ index, valuesAt writes index = if lo ≤ index ∧ index < hi then [source index] else []

theorem valuesAt_cons (write : Write Byte) (writes : List (Write Byte)) (index : Nat) :
    valuesAt (write :: writes) index = (write.at index).toList ++ valuesAt writes index := by
  rw [valuesAt, filterMap_cons]
  cases write.at index <;> rfl

theorem Write.at_eq_some {write : Write Byte} {index : Nat} {byte : Byte}
    (isByte : write.at index = some byte) :
    write.offset ≤ index ∧ index < write.offset + write.data.length ∧
      write.data[index - write.offset]? = some byte := by
  unfold Write.at at isByte
  split at isByte
  · rename_i above
    have inside := (List.getElem?_eq_some_iff.mp isByte).1
    exact ⟨above, by omega, isByte⟩
  · cases isByte

theorem Write.length_at (write : Write Byte) (index : Nat) :
    (write.at index).toList.length =
      within write.offset (write.offset + write.data.length) index := by
  by_cases inside : write.offset ≤ index ∧ index < write.offset + write.data.length
  · obtain ⟨byte, isByte⟩ : ∃ byte, write.data[index - write.offset]? = some byte :=
      ⟨_, getElem?_eq_getElem (by omega)⟩
    rw [Write.at, if_pos inside.1, isByte, within, if_pos inside]
    rfl
  · have none : write.at index = none := by
      cases isByte : write.at index with
      | none => rfl
      | some byte =>
        obtain ⟨above, below, _⟩ := Write.at_eq_some isByte
        exact absurd ⟨above, below⟩ inside
    rw [none, within, if_neg inside]
    rfl

theorem valuesAt_ne_nil_of_cons {write : Write Byte} {writes : List (Write Byte)} {index : Nat}
    (present : valuesAt writes index ≠ []) : valuesAt (write :: writes) index ≠ [] := by
  rw [valuesAt_cons]
  exact append_ne_nil_of_right_ne_nil _ present

theorem valuesAt_ne_nil_of_covers {write : Write Byte} {writes : List (Write Byte)} {index : Nat}
    (above : write.offset ≤ index) (below : index < write.offset + write.data.length) :
    valuesAt (write :: writes) index ≠ [] := by
  have one := write.length_at index
  rw [within, if_pos ⟨above, below⟩] at one
  rw [valuesAt_cons]
  refine append_ne_nil_of_left_ne_nil ?_ _
  exact ne_nil_of_length_pos (by omega)

theorem Agrees.append {source : Nat → Byte} {offset : Nat} {first second : List Byte}
    (agrees : Agrees source offset first)
    (onward : Agrees source (offset + first.length) second) :
    Agrees source offset (first ++ second) := by
  intro place byte isByte
  by_cases inFirst : place < first.length
  · exact agrees place byte (by rwa [getElem?_append_left inFirst] at isByte)
  · rw [getElem?_append_right (Nat.not_lt.mp inFirst)] at isByte
    rw [onward _ byte isByte]
    congr 1
    omega

theorem agrees_nil (source : Nat → Byte) (offset : Nat) : Agrees source offset [] :=
  fun place byte isByte => by cases isByte

theorem agrees_single (source : Nat → Byte) (offset : Nat) :
    Agrees source offset [source offset] := by
  intro place byte isByte
  cases place with
  | zero => exact (Option.some.inj isByte).symm
  | succ place => cases isByte

/-! ### Tilings -/

/-- The writes and the ranges that are left cover each byte of the interval once, taken together,
and the writes have the bytes of the source. -/
structure Tiling (source : Nat → Byte) (lo hi : Nat) (writes : List (Write Byte))
    (outstanding : List Range) : Prop where
  once : ∀ index,
    (valuesAt writes index).length + coverings outstanding index = within lo hi index
  agrees : ∀ index, ∀ byte ∈ valuesAt writes index, byte = source index

namespace Tiling

variable {source : Nat → Byte} {lo hi : Nat} {writes : List (Write Byte)}
  {outstanding after rest : List Range} {range : Range} {data : List Byte}

theorem start (covers : ∀ index, coverings outstanding index = within lo hi index) :
    Tiling source lo hi [] outstanding :=
  ⟨fun index => (Nat.zero_add _).trans (covers index), fun _ _ member => by cases member⟩

/-- The same ranges, cut or ordered otherwise. -/
theorem regroup (tiling : Tiling source lo hi writes outstanding)
    (same : ∀ index, coverings after index = coverings outstanding index) :
    Tiling source lo hi writes after :=
  ⟨fun index => by rw [same, tiling.once], tiling.agrees⟩

/-- A write of the beginning of a range. -/
theorem write (tiling : Tiling source lo hi writes (range :: rest))
    (short : data.length ≤ range.len) (agrees : Agrees source range.offset data) :
    Tiling source lo hi (⟨range.offset, data⟩ :: writes)
      (⟨range.offset + data.length, range.len - data.length⟩ :: rest) where
  once index := by
    have before := tiling.once index
    have here := Write.length_at ⟨range.offset, data⟩ index
    have cut := within_add (Nat.le_add_right range.offset data.length)
      (Nat.add_le_add_left short range.offset) index
    have isEnd : range.offset + data.length + (range.len - data.length) =
        range.offset + range.len := by omega
    rw [coverings_cons] at before
    rw [valuesAt_cons, length_append, coverings_cons, here, isEnd]
    dsimp only
    omega
  agrees index byte member := by
    rw [valuesAt_cons] at member
    rcases mem_append.mp member with isHere | earlier
    · obtain ⟨above, _, isByte⟩ := Write.at_eq_some (Option.mem_toList.mp isHere)
      rw [agrees _ _ isByte, Nat.add_sub_cancel' above]
    · exact tiling.agrees index byte earlier

/-- A range of no bytes is as good as none. -/
theorem coverings_cons_of_empty {offset len : Nat} (empty : len = 0) (index : Nat) :
    coverings (⟨offset, len⟩ :: rest) index = coverings rest index := by
  rw [coverings_cons, empty, Nat.add_zero, within_self, Nat.zero_add]

/-- A write of a whole range. -/
theorem writeWhole (tiling : Tiling source lo hi writes (range :: rest))
    (whole : data.length = range.len) (agrees : Agrees source range.offset data) :
    Tiling source lo hi (⟨range.offset, data⟩ :: writes) rest :=
  (tiling.write (Nat.le_of_eq whole) agrees).regroup fun index =>
    (coverings_cons_of_empty (by omega) index).symm

theorem fillsOnce (tiling : Tiling source lo hi writes []) : FillsOnce source lo hi writes := by
  intro index
  have count := tiling.once index
  rw [coverings_nil, Nat.add_zero, within] at count
  split
  · rename_i inside
    rw [if_pos inside] at count
    obtain ⟨byte, isByte⟩ := length_eq_one_iff.mp count
    rw [isByte, tiling.agrees index byte (isByte ▸ mem_singleton_self byte)]
  · rename_i outside
    rw [if_neg outside] at count
    exact eq_nil_of_length_eq_zero count

end Tiling

end Oryxis.Library

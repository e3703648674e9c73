/-
This file is a file that is filled by positioned writes in any order. Writing past
its end extends it and leaves a hole between; a hole reads as zeros, and the length
does not show it.

A `Filling` is such a file with the ranges that are still to be written. A range may
be answered in parts, and the one bound that survives every order is a slack: as
long as no write ends further than the slack beyond the start of a range that is
still to be written, everything that lies further than the slack below the end of
the file has been written.
-/

import Mathlib.Data.List.Basic

namespace Oryxis.Library

variable {Byte : Type*}

structure SparseFile (Byte : Type*) where
  length : Nat
  /-- `none` in a hole. -/
  byte : Nat → Option Byte
  beyond : ∀ {index}, length ≤ index → byte index = none

namespace SparseFile

def empty : SparseFile Byte := ⟨0, fun _ => none, fun _ => rfl⟩

/-- The bytes of a source from an offset on, written at that offset. -/
def write (file : SparseFile Byte) (source : Nat → Byte) (offset count : Nat) :
    SparseFile Byte where
  length := max file.length (offset + count)
  byte index :=
    if offset ≤ index ∧ index < offset + count then some (source index) else file.byte index
  beyond past := by
    rw [if_neg (by omega)]
    exact file.beyond (by omega)

/-- Cuts the file, or extends it by a hole. -/
def setLength (file : SparseFile Byte) (length : Nat) : SparseFile Byte where
  length := length
  byte index := if index < length then file.byte index else none
  beyond past := if_neg (by omega)

/-- What a read sees. -/
def read (zero : Byte) (file : SparseFile Byte) (index : Nat) : Byte :=
  (file.byte index).getD zero

/-- The file is the source, to the byte. -/
def IsCopy (source : Nat → Byte) (size : Nat) (file : SparseFile Byte) : Prop :=
  file.length = size ∧ ∀ index < size, file.byte index = some (source index)

end SparseFile

/-- Bytes of a file that are asked for, or on their way. -/
structure Range where
  offset : Nat
  len : Nat
  deriving DecidableEq, Repr

def Range.Covers (range : Range) (index : Nat) : Prop :=
  range.offset ≤ index ∧ index < range.offset + range.len

/-- A file that is being filled from a source, and the ranges that are still to be written. -/
structure Filling (source : Nat → Byte) (size slack : Nat) (file : SparseFile Byte)
    (outstanding : List Range) : Prop where
  faithful : ∀ {index byte}, file.byte index = some byte → byte = source index
  covered : ∀ index < size, file.byte index ≠ none ∨ ∃ range ∈ outstanding, range.Covers index
  within : size ≤ file.length ∨ ∀ range ∈ outstanding, file.length ≤ range.offset + slack

namespace Filling

variable {source : Nat → Byte} {size slack : Nat} {file : SparseFile Byte}
  {outstanding after : List Range}

/-- What is further than the slack below the end has been written. -/
theorem written (filling : Filling source size slack file outstanding) (shorter : file.length < size)
    {index : Nat} (below : index + slack < file.length) : file.byte index = some (source index) := by
  have present : file.byte index ≠ none := by
    rcases filling.covered index (by omega) with present | ⟨range, member, covers⟩
    · exact present
    · rcases filling.within with whole | near
      · omega
      · have := near range member
        have := covers.1
        omega
  obtain ⟨byte, isByte⟩ := Option.ne_none_iff_exists'.mp present
  rw [isByte, filling.faithful isByte]

theorem byte_of_all_written (filling : Filling source size slack file []) {index : Nat}
    (inside : index < size) : file.byte index = some (source index) := by
  rcases filling.covered index inside with present | ⟨_, member, _⟩
  · obtain ⟨byte, isByte⟩ := Option.ne_none_iff_exists'.mp present
    rw [isByte, filling.faithful isByte]
  · cases member

theorem isCopy (filling : Filling source size slack file []) (whole : file.length = size) :
    file.IsCopy source size :=
  ⟨whole, fun _ inside => filling.byte_of_all_written inside⟩

/-- The ranges that are left, cut otherwise. -/
theorem regroup (filling : Filling source size slack file outstanding)
    (covers : ∀ index, (∃ range ∈ outstanding, range.Covers index) →
      ∃ range ∈ after, range.Covers index)
    (later : ∀ other ∈ after, ∃ before ∈ outstanding, before.offset ≤ other.offset) :
    Filling source size slack file after where
  faithful := filling.faithful
  covered index inside := (filling.covered index inside).imp_right (covers index)
  within := by
    refine filling.within.imp_right fun before other member => ?_
    obtain ⟨earlier, among, order⟩ := later other member
    have := before earlier among
    omega

/-- A write of the beginning of a range, which ends near every range that is left. -/
theorem write (filling : Filling source size slack file outstanding) {range : Range} {count : Nat}
    (kept : ∀ other ∈ outstanding, other = range ∨ other ∈ after)
    (remainder : ∀ index, range.Covers index → range.offset + count ≤ index →
      ∃ other ∈ after, other.Covers index)
    (later : ∀ other ∈ after, ∃ before ∈ outstanding, before.offset ≤ other.offset)
    (near : size ≤ max file.length (range.offset + count) ∨
      ∀ other ∈ after, range.offset + count ≤ other.offset + slack) :
    Filling source size slack (file.write source range.offset count) after where
  faithful := by
    intro index byte isByte
    simp only [SparseFile.write] at isByte
    split at isByte
    · exact (Option.some.inj isByte).symm
    · exact filling.faithful isByte
  covered := by
    intro index inside
    simp only [SparseFile.write]
    split
    · exact .inl (by simp)
    · rename_i outside
      rcases filling.covered index inside with present | ⟨other, member, covers⟩
      · exact .inl present
      · rcases kept other member with rfl | stays
        · refine .inr (remainder index covers ?_)
          have := covers.1
          omega
        · exact .inr ⟨other, stays, covers⟩
  within := by
    rcases filling.within with whole | before
    · exact .inl (Nat.le_trans whole (Nat.le_max_left ..))
    · refine near.imp_right fun close other member => ?_
      obtain ⟨earlier, among, order⟩ := later other member
      have := before earlier among
      have := close other member
      simp only [SparseFile.write]
      omega

end Filling

end Oryxis.Library

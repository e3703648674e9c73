/-
This file is a small theory of keyed tables.

A table is a list of rows. Its primary key is a column of the row on which no two
rows agree; next to it the table has one `UNIQUE` constraint, a second column
that may be null and on which no two rows agree where it is not. The operations
are the statements a store issues -- insert or replace, delete where, update --
and each is described by its effect on `get?`, the row stored under a key.

`insertOrReplace` is the one to watch. It drops every row that stands in the way
of the new one, and a row can stand in the way through either constraint: a row
of another key disappears when it agrees on the unique column. Nothing here knows
what the rows are.
-/

import Mathlib.Data.List.Nodup
import Mathlib.Data.List.Pairwise

namespace Oryxis.Library

open List

/-- Rows that are pairwise distinct on a primary key and on a nullable unique column. -/
structure Table {Key Index Row : Type} (key : Row → Key) (unique : Row → Option Index) where
  rows : List Row
  distinct : (rows.map key).Nodup
  constraint : rows.Pairwise fun row other =>
    ∀ index, unique row = some index → unique other ≠ some index

namespace Table

variable {Key Index Row : Type} {key : Row → Key} {unique : Row → Option Index}

/-- The unique column of a table that has none. -/
def noIndex (_ : Row) : Option Unit := none

/-- The table without rows. -/
def empty : Table key unique := ⟨[], nodup_nil, List.Pairwise.nil⟩

/-- `DELETE FROM table WHERE drop`. -/
def deleteWhere (table : Table key unique) (drop : Row → Bool) : Table key unique where
  rows := table.rows.filter fun row => !drop row
  distinct := table.distinct.sublist (filter_sublist.map key)
  constraint := table.constraint.sublist filter_sublist

/-- `UPDATE table SET ...`: a change of the rows that leaves both constrained columns alone. -/
def update (table : Table key unique) (change : Row → Row)
    (sameKey : ∀ row, key (change row) = key row)
    (sameUnique : ∀ row, unique (change row) = unique row) : Table key unique where
  rows := table.rows.map change
  distinct := by
    rw [map_map]
    have same : key ∘ change = key := funext sameKey
    rw [same]
    exact table.distinct
  constraint := by
    rw [pairwise_map]
    refine table.constraint.imp fun {row other} apart index => ?_
    rw [sameUnique, sameUnique]
    exact apart index

@[simp] theorem mem_rows_deleteWhere (table : Table key unique) (drop : Row → Bool) (row : Row) :
    row ∈ (table.deleteWhere drop).rows ↔ row ∈ table.rows ∧ drop row = false := by
  simp [deleteWhere]

variable [DecidableEq Key]

/-- The row stored under a key. -/
def get? (table : Table key unique) (index : Key) : Option Row :=
  table.rows.find? fun row => key row = index

variable [DecidableEq Index]

/-- Whether a stored row stands in the way of a new one, on the key or on the unique column. -/
def displaces (key : Row → Key) (unique : Row → Option Index) (row other : Row) : Bool :=
  decide (key other = key row) || ((unique other).isSome && decide (unique other = unique row))

/-- `INSERT OR REPLACE INTO table`: the rows that stand in the way go first. -/
def insertOrReplace (table : Table key unique) (row : Row) : Table key unique where
  rows := (table.rows.filter fun other => !displaces key unique row other) ++ [row]
  distinct := by
    rw [map_append, map_singleton]
    refine Nodup.append (table.distinct.sublist (filter_sublist.map key))
      (nodup_singleton _) ?_
    intro index member single
    rw [mem_singleton] at single
    obtain ⟨other, kept, rfl⟩ := mem_map.mp member
    simp [displaces, single] at kept
  constraint := by
    rw [pairwise_append]
    refine ⟨table.constraint.sublist filter_sublist, pairwise_singleton _ _, ?_⟩
    intro other kept new single index otherIndex newIndex
    rw [mem_singleton] at single
    subst single
    simp [displaces, otherIndex, newIndex] at kept

/-! ### The row stored under a key -/

omit [DecidableEq Index] in
theorem get?_eq_some_iff (table : Table key unique) (index : Key) (row : Row) :
    table.get? index = some row ↔ row ∈ table.rows ∧ key row = index := by
  constructor
  · intro found
    exact ⟨mem_of_find?_eq_some found, by simpa using find?_some found⟩
  · rintro ⟨member, rfl⟩
    cases found : table.get? (key row) with
    | none =>
      have absent := find?_eq_none.mp found row member
      simp at absent
    | some other =>
      have otherMember := mem_of_find?_eq_some found
      have otherKey : key other = key row := by simpa using find?_some found
      rw [inj_on_of_nodup_map table.distinct otherMember member otherKey]

variable {table : Table key unique} {row : Row}

omit [DecidableEq Index] in
theorem key_of_get? {index : Key} (found : table.get? index = some row) : key row = index :=
  ((table.get?_eq_some_iff index row).mp found).2

omit [DecidableEq Index] in
theorem mem_of_get? {index : Key} (found : table.get? index = some row) : row ∈ table.rows :=
  ((table.get?_eq_some_iff index row).mp found).1

omit [DecidableEq Index] in
theorem get?_of_mem (member : row ∈ table.rows) :
    table.get? (key row) = some row :=
  (table.get?_eq_some_iff _ row).mpr ⟨member, rfl⟩

omit [DecidableEq Index] in
theorem get?_eq_none_iff (table : Table key unique) (index : Key) :
    table.get? index = none ↔ ∀ row ∈ table.rows, key row ≠ index := by
  simp [get?, find?_eq_none]

omit [DecidableEq Key] [DecidableEq Index] in
/-- Two stored rows that agree on the unique column are one row. -/
theorem eq_of_unique (table : Table key unique) {other : Row} {index : Index}
    (member : row ∈ table.rows) (otherMember : other ∈ table.rows)
    (rowIndex : unique row = some index) (otherIndex : unique other = some index) :
    row = other := by
  by_contra different
  have : Std.Symm fun row other : Row =>
      ∀ index, unique row = some index → unique other ≠ some index :=
    ⟨fun _ _ apart index rightIndex leftIndex => apart index leftIndex rightIndex⟩
  exact table.constraint.forall member otherMember different index rowIndex otherIndex

omit [DecidableEq Index] in
@[simp] theorem get?_deleteWhere (table : Table key unique) (drop : Row → Bool) (index : Key) :
    (table.deleteWhere drop).get? index = (table.get? index).filter fun row => !drop row := by
  apply Option.ext
  intro row
  rw [get?_eq_some_iff, mem_rows_deleteWhere, Option.filter_eq_some_iff, get?_eq_some_iff]
  simp only [Bool.not_eq_true']
  tauto

omit [DecidableEq Index] in
@[simp] theorem get?_update (table : Table key unique) (change : Row → Row)
    (sameKey : ∀ row, key (change row) = key row)
    (sameUnique : ∀ row, unique (change row) = unique row) (index : Key) :
    (table.update change sameKey sameUnique).get? index = (table.get? index).map change := by
  apply Option.ext
  intro row
  rw [get?_eq_some_iff, Option.map_eq_some_iff]
  constructor
  · rintro ⟨member, rfl⟩
    obtain ⟨before, beforeMember, rfl⟩ := mem_map.mp member
    exact ⟨before, by rw [sameKey]; exact get?_of_mem beforeMember, rfl⟩
  · rintro ⟨before, found, rfl⟩
    exact ⟨mem_map_of_mem (mem_of_get? found), by rw [sameKey]; exact key_of_get? found⟩

@[simp] theorem mem_rows_insertOrReplace (table : Table key unique) (row other : Row) :
    other ∈ (table.insertOrReplace row).rows ↔
      (other ∈ table.rows ∧ displaces key unique row other = false) ∨ other = row := by
  simp [insertOrReplace]

theorem get?_insertOrReplace (table : Table key unique) (row : Row) (index : Key) :
    (table.insertOrReplace row).get? index =
      if index = key row then some row
      else (table.get? index).filter fun other => !displaces key unique row other := by
  apply Option.ext
  intro other
  rw [get?_eq_some_iff, mem_rows_insertOrReplace]
  split
  · rename_i same
    subst same
    constructor
    · rintro ⟨⟨_, apart⟩ | rfl, equal⟩
      · simp [displaces, equal] at apart
      · rfl
    · rintro ⟨rfl⟩
      exact ⟨.inr rfl, rfl⟩
  · rename_i different
    rw [Option.filter_eq_some_iff, get?_eq_some_iff]
    constructor
    · rintro ⟨⟨member, apart⟩ | rfl, equal⟩
      · exact ⟨⟨member, equal⟩, by simp [apart]⟩
      · exact absurd equal.symm different
    · rintro ⟨⟨member, equal⟩, apart⟩
      exact ⟨.inl ⟨member, by simpa using apart⟩, equal⟩

@[simp] theorem get?_insertOrReplace_self (table : Table key unique) (row : Row) :
    (table.insertOrReplace row).get? (key row) = some row := by
  rw [get?_insertOrReplace, if_pos rfl]

/-- A row whose unique column is null displaces the row of its own key only. -/
theorem get?_insertOrReplace_of_null (table : Table key unique) (row : Row) (index : Key)
    (null : unique row = none) :
    (table.insertOrReplace row).get? index =
      if index = key row then some row else table.get? index := by
  rw [get?_insertOrReplace]
  split
  · rfl
  · rename_i different
    apply Option.ext
    intro other
    rw [Option.filter_eq_some_iff]
    refine ⟨And.left, fun found => ⟨found, ?_⟩⟩
    have notSame : key other ≠ key row := by
      rw [key_of_get? found]
      exact different
    cases index : unique other <;> simp [displaces, notSame, null, index]

end Table

end Oryxis.Library

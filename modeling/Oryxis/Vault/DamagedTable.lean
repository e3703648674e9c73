/-
This file is a table some stretches of which cannot be read, as an engine that answers from
it, and what each call of that engine gives.

A read or a probe goes upward from the key it is given and comes to a row, or to the end of
the table, or is refused by the first damage on its way. A damaged stretch stops it also
where the stretch holds no row.
-/

import Mathlib.Data.List.Pairwise
import Oryxis.Vault.CopyTable

namespace Oryxis.Rebuild

open List

/-! ### The table -/

/-- The rowids from `first` to `last` of a page that is gone. -/
structure Stretch where
  first : Int
  last : Int
  ordered : first ≤ last

structure DamagedTable (Values : Type) where
  rows : List (Int × Values)
  stretches : List Stretch
  sorted : rows.Pairwise fun row other => row.1 < other.1
  isRowid : ∀ row ∈ rows, IsRowid row.1

variable {Values : Type}

namespace DamagedTable

/-- Some damage lies between two rowids, these included. -/
def blocked (table : DamagedTable Values) (first last : Int) : Bool :=
  table.stretches.any fun stretch =>
    decide (max first stretch.first ≤ min last stretch.last)

def readable (table : DamagedTable Values) (rowid : Int) : Bool := !table.blocked rowid rowid

/-- The rows of the table from a key on. -/
def upward (table : DamagedTable Values) (key : Int) : List (Int × Values) :=
  table.rows.filter fun row => decide (key ≤ row.1)

/-- Up to `limit` rows, read one after the other, and whether damage stopped the reading. -/
def walk (table : DamagedTable Values) :
    Nat → Int → List (Int × Values) → List (Int × Values) × Bool
  | 0, _, _ => ([], false)
  | _ + 1, cursor, [] => ([], table.blocked cursor maxRowid)
  | limit + 1, cursor, row :: rows =>
    if table.blocked cursor row.1 then ([], true)
    else
      let onward := table.walk limit (row.1 + 1) rows
      (row :: onward.1, onward.2)

def readBatch (table : DamagedTable Values) (start : Int) : List (Int × Values) × Bool :=
  table.walk batch start (table.upward start)

def probe (table : DamagedTable Values) (key : Int) : Answer :=
  match table.upward key with
  | [] => if table.blocked key maxRowid then .refused else .nothing
  | row :: _ => if table.blocked key row.1 then .refused else .found row.1

end DamagedTable

/-- The new table takes a row unless it has one of that rowid. -/
def insertRow (written : List (Int × Values)) (row : Int × Values) : Inserted :=
  if written.any fun other => decide (other.1 = row.1) then .present else .copied

namespace DamagedTable

/-! ### What it answers -/

variable (table : DamagedTable Values)

theorem blocked_eq_false {first last : Int} :
    table.blocked first last = false ↔
      ∀ stretch ∈ table.stretches, last < stretch.first ∨ stretch.last < first ∨ last < first := by
  simp only [blocked, any_eq_false, decide_eq_true_eq]
  refine forall_congr' fun stretch => forall_congr' fun _ => ?_
  have ordered := stretch.ordered
  omega

/-- Where no damage lies on the way, none does on a part of it. -/
theorem readable_of_not_blocked {first last : Int} (clear : table.blocked first last = false)
    (upward : first ≤ last) : table.readable last = true := by
  rw [readable, Bool.not_eq_true', blocked_eq_false]
  intro stretch member
  have apart := table.blocked_eq_false.mp clear stretch member
  omega

variable {key : Int} {row : Int × Values}

theorem mem_upward :
    row ∈ table.upward key ↔ row ∈ table.rows ∧ key ≤ row.1 := by
  rw [upward, mem_filter, decide_eq_true_eq]

theorem upward_sorted (key : Int) :
    (table.upward key).Pairwise fun row other => row.1 < other.1 :=
  table.sorted.filter _

theorem walk_prefix (limit : Nat) (cursor : Int) (rows : List (Int × Values)) :
    (table.walk limit cursor rows).1 <+: rows := by
  induction rows generalizing limit cursor with
  | nil => cases limit <;> exact prefix_rfl
  | cons row rows inductionHypothesis =>
    cases limit with
    | zero => exact nil_prefix
    | succ limit =>
      rw [walk]
      split
      · exact nil_prefix
      · exact (prefix_cons_inj row).mpr (inductionHypothesis limit (row.1 + 1))

/-- What is read is readable. -/
theorem walk_readable (limit : Nat) (cursor : Int) (rows : List (Int × Values))
    (sorted : rows.Pairwise fun row other => row.1 < other.1)
    (upward : ∀ row ∈ rows, cursor ≤ row.1) :
    ∀ row ∈ (table.walk limit cursor rows).1, table.readable row.1 = true := by
  induction rows generalizing limit cursor with
  | nil => cases limit <;> exact forall_mem_nil _
  | cons row rows inductionHypothesis =>
    cases limit with
    | zero => exact forall_mem_nil _
    | succ limit =>
      rw [walk]
      split
      · exact forall_mem_nil _
      · rename_i clear
        obtain ⟨later, onward⟩ := pairwise_cons.mp sorted
        intro other member
        rcases mem_cons.mp member with rfl | member
        · exact table.readable_of_not_blocked (Bool.eq_false_iff.mpr clear)
            (upward _ mem_cons_self)
        · exact inductionHypothesis limit (row.1 + 1) onward later other member

/-- A reading that ends short of its limit and undamaged has come to the end. -/
theorem walk_all (limit : Nat) (cursor : Int) (rows : List (Int × Values))
    (undamaged : (table.walk limit cursor rows).2 = false)
    (short : (table.walk limit cursor rows).1.length < limit) :
    (table.walk limit cursor rows).1 = rows := by
  induction rows generalizing limit cursor with
  | nil => cases limit <;> rfl
  | cons row rows inductionHypothesis =>
    cases limit with
    | zero => exact absurd short (Nat.not_lt_zero _)
    | succ limit =>
      rw [walk] at undamaged short ⊢
      split at undamaged
      · cases undamaged
      · rename_i clear
        rw [if_neg clear] at short ⊢
        exact congrArg (row :: ·)
          (inductionHypothesis limit (row.1 + 1) undamaged (Nat.lt_of_succ_lt_succ short))

/-- A readable row at the cursor is read. -/
theorem walk_first {limit : Nat} {cursor : Int} {rows : List (Int × Values)}
    (atCursor : row.1 = cursor) (readable : table.readable row.1 = true) :
    row ∈ (table.walk (limit + 1) cursor (row :: rows)).1 := by
  have clear : table.blocked cursor row.1 = false := by
    rw [← atCursor]
    exact Bool.not_eq_true' _ ▸ readable
  rw [walk, clear, if_neg Bool.false_ne_true]
  exact mem_cons_self

variable {start : Int}

theorem readBatch_mem (read : row ∈ (table.readBatch start).1) :
    row ∈ table.rows ∧ start ≤ row.1 ∧ table.readable row.1 = true := by
  obtain ⟨member, above⟩ :=
    table.mem_upward.mp ((table.walk_prefix batch start (table.upward start)).subset read)
  exact ⟨member, above, table.walk_readable batch start (table.upward start)
    (table.upward_sorted start) (fun other member => (table.mem_upward.mp member).2) row read⟩

/-- A row that is not read lies beyond those that are. -/
theorem readBatch_below {other : Int × Values} (member : row ∈ table.rows) (above : start ≤ row.1)
    (unread : row ∉ (table.readBatch start).1) (read : other ∈ (table.readBatch start).1) :
    other.1 < row.1 := by
  obtain ⟨rest, whole⟩ := table.walk_prefix batch start (table.upward start)
  have sorted := table.upward_sorted start
  have reached := table.mem_upward.mpr ⟨member, above⟩
  rw [← whole] at sorted reached
  rcases mem_append.mp reached with first | later
  · exact absurd first unread
  · exact (pairwise_append.mp sorted).2.2 other read row later

theorem readBatch_all (undamaged : (table.readBatch start).2 = false)
    (short : (table.readBatch start).1.length < batch) (member : row ∈ table.rows)
    (above : start ≤ row.1) : row ∈ (table.readBatch start).1 := by
  have all := table.walk_all batch start (table.upward start) undamaged short
  rw [readBatch, all]
  exact table.mem_upward.mpr ⟨member, above⟩

theorem upward_of_mem (member : row ∈ table.rows) :
    ∃ rest, table.upward row.1 = row :: rest := by
  have reached := table.mem_upward.mpr ⟨member, Int.le_refl row.1⟩
  have sorted := table.upward_sorted row.1
  have above : ∀ other ∈ table.upward row.1, row.1 ≤ other.1 :=
    fun other member => (table.mem_upward.mp member).2
  cases upward : table.upward row.1 with
  | nil =>
    rw [upward] at reached
    cases reached
  | cons head rest =>
    rw [upward] at reached sorted above
    rcases mem_cons.mp reached with same | later
    · exact ⟨rest, by rw [same]⟩
    · have before := (pairwise_cons.mp sorted).1 row later
      have notBefore := above head mem_cons_self
      omega

theorem readBatch_first (member : row ∈ table.rows) (readable : table.readable row.1 = true) :
    row ∈ (table.readBatch row.1).1 := by
  obtain ⟨rest, upward⟩ := table.upward_of_mem member
  rw [readBatch, upward]
  exact table.walk_first rfl readable

theorem probe_at (member : row ∈ table.rows) (readable : table.readable row.1 = true) :
    table.probe row.1 = .found row.1 := by
  obtain ⟨rest, upward⟩ := table.upward_of_mem member
  rw [DamagedTable.readable, Bool.not_eq_true'] at readable
  rw [probe, upward]
  simp only [readable, if_neg Bool.false_ne_true]

/-- An answer is the first row from the key on. -/
theorem probe_found {rowid : Int} (found : table.probe key = .found rowid) :
    (∃ row ∈ table.rows, row.1 = rowid) ∧ key ≤ rowid ∧
      ∀ row ∈ table.rows, key ≤ row.1 → rowid ≤ row.1 := by
  have sorted := table.upward_sorted key
  unfold probe at found
  cases upward : table.upward key with
  | nil =>
    rw [upward] at found
    simp only [] at found
    split at found <;> cases found
  | cons head rest =>
    rw [upward] at found sorted
    simp only [] at found
    have reached : head ∈ table.upward key := upward ▸ mem_cons_self
    split at found
    · cases found
    · cases found
      refine ⟨⟨head, (table.mem_upward.mp reached).1, rfl⟩, (table.mem_upward.mp reached).2, ?_⟩
      intro row member above
      have later := table.mem_upward.mpr ⟨member, above⟩
      rw [upward] at later
      rcases mem_cons.mp later with rfl | later
      · exact Int.le_refl _
      · exact Int.le_of_lt ((pairwise_cons.mp sorted).1 row later)

theorem probe_nothing (nothing : table.probe key = .nothing) :
    ∀ row ∈ table.rows, row.1 < key := by
  intro row member
  by_contra above
  have later := table.mem_upward.mpr ⟨member, Int.not_lt.mp above⟩
  unfold probe at nothing
  cases upward : table.upward key with
  | nil =>
    rw [upward] at later
    cases later
  | cons head rest =>
    rw [upward] at nothing
    simp only [] at nothing
    split at nothing <;> cases nothing

/-- The damaged table as the engine its copy is made from, into a new table without rows. -/
def engine : Engine Values where
  readBatch _ start := table.readBatch start
  probe _ key := table.probe key
  insert _ written row := insertRow written row
  readBatch_isRowid _ _ row read := table.isRowid row (table.readBatch_mem read).1
  probe_isRowid _ _ rowid found := by
    obtain ⟨⟨row, member, same⟩, -⟩ := table.probe_found found
    exact same ▸ table.isRowid row member

/-! ### Writing what was read -/

/-- What is written is readable rows of the table, and none twice. -/
structure Holds (written : List (Int × Values)) : Prop where
  rows : ∀ row ∈ written, row ∈ table.rows ∧ table.readable row.1 = true
  once : (written.map Prod.fst).Nodup

/-- Two rows of one rowid are one. -/
theorem rowid_injective {other : Int × Values} (member : row ∈ table.rows)
    (otherMember : other ∈ table.rows) (same : row.1 = other.1) : row = other := by
  obtain ⟨rest, upward⟩ := table.upward_of_mem member
  obtain ⟨otherRest, otherUpward⟩ := table.upward_of_mem otherMember
  rw [same, otherUpward] at upward
  exact (cons.inj upward).1.symm

theorem writeRows_table (call : Nat) {rows written : List (Int × Values)} (report : TableRebuild)
    (holds : table.Holds written)
    (readable : ∀ row ∈ rows, row ∈ table.rows ∧ table.readable row.1 = true) :
    ∃ written' report', writeRows table.engine call rows written report = some (written', report') ∧
      table.Holds written' ∧ ∀ row, row ∈ written' ↔ row ∈ written ∨ row ∈ rows := by
  induction rows generalizing written report with
  | nil => exact ⟨written, report, rfl, holds, fun row => by simp⟩
  | cons row rows inductionHypothesis =>
    have here := readable row mem_cons_self
    have later := fun other member => readable other (mem_cons_of_mem row member)
    have inserted : table.engine.insert call written row = insertRow written row := rfl
    rw [writeRows, inserted, insertRow]
    by_cases present : (written.any fun other => decide (other.1 = row.1)) = true
    · rw [if_pos present]
      obtain ⟨other, member, same⟩ := any_eq_true.mp present
      have isRow : other = row := table.rowid_injective (holds.rows other member).1 here.1
        (of_decide_eq_true same)
      obtain ⟨written', report', writes, holds', members⟩ :=
        inductionHypothesis report holds later
      refine ⟨written', report', writes, holds', fun another => ?_⟩
      rw [members another, mem_cons]
      constructor
      · rintro (before | read)
        · exact .inl before
        · exact .inr (.inr read)
      · rintro (before | rfl | read)
        · exact .inl before
        · exact .inl (isRow ▸ member)
        · exact .inr read
    · rw [if_neg present]
      have absent : row.1 ∉ written.map Prod.fst := by
        intro member
        obtain ⟨other, member, same⟩ := mem_map.mp member
        exact present (any_eq_true.mpr ⟨other, member, decide_eq_true same⟩)
      have copied : table.Holds (written ++ [row]) := by
        refine ⟨fun other member => ?_, ?_⟩
        · rcases mem_append.mp member with before | new
          · exact holds.rows other before
          · exact mem_singleton.mp new ▸ here
        · rw [map_append, map_singleton]
          exact nodup_append.mpr ⟨holds.once, pairwise_singleton _ _, by
            intro rowid before other new
            rw [mem_singleton.mp new]
            exact fun same => absent (same ▸ before)⟩
      obtain ⟨written', report', writes, holds', members⟩ :=
        inductionHypothesis { report with copied := report.copied + 1 } copied later
      refine ⟨written', report', writes, holds', fun another => ?_⟩
      rw [members another, mem_append, mem_singleton, mem_cons, or_assoc]

end DamagedTable

end Oryxis.Rebuild

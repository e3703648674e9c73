/-
This file is a relational database as its statements see it: named tables that may
or may not exist, rows that have a value in every column, and references from a
column of one table to a column of another.

A table can only be dropped while no row refers to one of its rows. Dropping
several tables one after the other goes as far as the first one that is refused,
so an order is good if it drops what refers before what is referred to.
-/

import Mathlib.Data.List.TakeWhile
import Oryxis.Library.Programs

namespace Oryxis.Library

open List

inductive SqlValue where
  | null
  | integer (value : Int)
  | text (value : String)
  | blob (value : List UInt8)
  deriving DecidableEq, Repr

/-- A row: its value in every column. -/
abbrev SqlRow := String → SqlValue

/-- The row without a value in any column. -/
def SqlRow.null : SqlRow := fun _ => .null

/-- A row with another value in one column. -/
def SqlRow.set (row : SqlRow) (column : String) (value : SqlValue) : SqlRow :=
  fun other => if other = column then value else row other

/-- `column REFERENCES parent(parentColumn)`, on a table `child`. -/
structure Reference (Name : Type) where
  child : Name
  column : String
  parent : Name
  parentColumn : String

structure Database (Name : Type) where
  tables : Name → Option (List SqlRow)

namespace Database

variable {Name : Type}

/-- The database of an empty file. -/
def absent : Database Name := ⟨fun _ => none⟩

/-- What a table holds; one that does not exist holds nothing. -/
def rows (database : Database Name) (name : Name) : List SqlRow := (database.tables name).getD []

variable {database : Database Name}

theorem ext_tables {other : Database Name} (same : ∀ name, database.tables name = other.tables name) : database = other := by
  cases database
  cases other
  exact congrArg Database.mk (funext same)

variable {name : Name}

theorem rows_of_tables {after : Database Name} {created : Name → Prop} [DecidablePred created]
    (tables : after.tables name =
      if created name then some (database.rows name) else database.tables name) :
    after.rows name = database.rows name := by
  rw [rows, tables]
  split <;> rfl

variable [DecidableEq Name]

def setTable (database : Database Name) (name : Name) (rows : Option (List SqlRow)) :
    Database Name :=
  ⟨fun other => if other = name then rows else database.tables other⟩

/-- `CREATE TABLE IF NOT EXISTS`. -/
def createTable (database : Database Name) (name : Name) : Database Name :=
  database.setTable name (some (database.rows name))

/-- Some row refers to a row of the table. -/
def isReferenced (references : List (Reference Name)) (database : Database Name) (name : Name) :
    Bool :=
  references.any fun reference =>
    decide (reference.parent = name) &&
      (database.rows reference.child).any fun row =>
        decide (row reference.column ≠ .null) &&
          (database.rows name).any fun parent =>
            decide (parent reference.parentColumn = row reference.column)

inductive Refusal where
  | foreignKey
  | engine

/-- `DROP TABLE IF EXISTS`, which the engine may also refuse for reasons of its own. -/
def dropTable (references : List (Reference Name)) (refused : Bool) (name : Name)
    (database : Database Name) : Except Refusal (Database Name) :=
  if refused then .error .engine
  else if database.isReferenced references name then .error .foreignKey
  else .ok (database.setTable name none)

/-! ### Tables -/

@[simp] theorem tables_setTable (database : Database Name) (name other : Name)
    (rows : Option (List SqlRow)) :
    (database.setTable name rows).tables other =
      if other = name then rows else database.tables other := rfl

theorem rows_setTable_none (database : Database Name) (name other : Name) :
    (database.setTable name none).rows other = if other = name then [] else database.rows other := by
  rw [rows, tables_setTable]
  split <;> rfl

@[simp] theorem rows_createTable (database : Database Name) (name other : Name) :
    (database.createTable name).rows other = database.rows other := by
  rw [rows, createTable, tables_setTable]
  split
  · rename_i same
    rw [same]
    rfl
  · rfl

/-! ### Creating tables in order -/

/-- Create one table after the other, as far as the engine goes along. -/
def createTables (refuses : Name → Bool) (names : List Name) :
    Program (Database Name) Refusal PUnit :=
  List.forM names fun name => Program.attempt fun database =>
    if refuses name then .error .engine else .ok (database.createTable name)

/-- The tables before the first one that is refused exist afterwards. -/
theorem execute_createTables (refuses : Name → Bool) (names : List Name)
    (database : Database Name) :
    ∃ outcome after, (createTables refuses names).execute database = (outcome, after) ∧
      (∀ name, after.tables name =
        if name ∈ names.takeWhile fun name => !refuses name then some (database.rows name)
        else database.tables name) ∧
      (outcome = .ok PUnit.unit ↔ ∀ name ∈ names, refuses name = false) := by
  induction names generalizing database with
  | nil => exact ⟨_, _, rfl, by simp, by simp⟩
  | cons first names inductionHypothesis =>
    rw [createTables, Program.execute_forM_cons, Program.execute_attempt]
    cases refused : refuses first with
    | true => exact ⟨_, _, rfl, by simp [refused], by simp [refused]⟩
    | false =>
      obtain ⟨outcome, after, executed, tables, succeeded⟩ :=
        inductionHypothesis (database.createTable first)
      refine ⟨outcome, after, executed, fun name => ?_, ?_⟩
      · rw [tables, rows_createTable, createTable, tables_setTable]
        by_cases here : name = first
        · subst here
          simp [refused]
        · simp [refused, here]
      · rw [succeeded, forall_mem_cons]
        exact (and_iff_right refused).symm

/-! ### Dropping tables in order -/

/-- An order in which no table is dropped before one it refers to. -/
def ReferencesLast (references : List (Reference Name)) (names : List Name) : Prop :=
  names.Pairwise fun earlier later =>
    ∀ reference ∈ references, reference.parent = later →
      reference.child ≠ earlier ∧ later ≠ earlier

instance (references : List (Reference Name)) (names : List Name) :
    Decidable (ReferencesLast references names) :=
  inferInstanceAs (Decidable (names.Pairwise fun earlier later =>
    ∀ reference ∈ references, reference.parent = later →
      reference.child ≠ earlier ∧ later ≠ earlier))

/-- Dropping a table that is on neither end of a reference to `name` leaves it as referenced as
it was. -/
theorem isReferenced_setTable_none {references : List (Reference Name)} (database : Database Name)
    {dropped : Name} (apart : ∀ reference ∈ references, reference.parent = name →
      reference.child ≠ dropped ∧ name ≠ dropped) :
    (database.setTable dropped none).isReferenced references name =
      database.isReferenced references name := by
  unfold isReferenced
  rw [Bool.eq_iff_iff, any_eq_true, any_eq_true]
  refine exists_congr fun reference => and_congr_right fun member => ?_
  by_cases same : reference.parent = name
  · obtain ⟨otherChild, otherName⟩ := apart reference member same
    simp only [rows_setTable_none, if_neg otherChild, if_neg otherName]
  · simp [same]

variable {Item : Type}

theorem takeWhile_congr {items : List Item} {accepts other : Item → Bool}
    (same : ∀ item ∈ items, accepts item = other item) :
    items.takeWhile accepts = items.takeWhile other := by
  induction items with
  | nil => rfl
  | cons item items inductionHypothesis =>
    rw [takeWhile_cons, takeWhile_cons, same item (mem_cons_self ..),
      inductionHypothesis fun later member => same later (mem_cons_of_mem _ member)]

variable (references : List (Reference Name)) (refuses : Name → Bool)

/-- Whether a table can be dropped from the database as it is. -/
def dropAccepted (database : Database Name) (name : Name) : Bool :=
  !refuses name && !database.isReferenced references name

/-- Drop one table after the other. -/
def dropTables (names : List Name) : Program (Database Name) Refusal PUnit :=
  List.forM names fun name => Program.attempt (dropTable references (refuses name) name)

variable {references refuses}

theorem dropTable_eq (database : Database Name) (name : Name) :
    (∃ refusal, dropTable references (refuses name) name database = .error refusal ∧
        database.dropAccepted references refuses name = false) ∨
      dropTable references (refuses name) name database = .ok (database.setTable name none) ∧
        database.dropAccepted references refuses name = true := by
  unfold dropTable dropAccepted
  cases refuses name
  · cases database.isReferenced references name
    · exact .inr ⟨rfl, rfl⟩
    · exact .inl ⟨.foreignKey, rfl, rfl⟩
  · exact .inl ⟨.engine, rfl, rfl⟩

/-- The tables that go before the first one that is refused. -/
theorem execute_dropTables {names : List Name} (database : Database Name)
    (ordered : ReferencesLast references names) :
    ∃ outcome after, (dropTables references refuses names).execute database = (outcome, after) ∧
      (∀ name, after.tables name =
        if name ∈ names.takeWhile (database.dropAccepted references refuses) then none
        else database.tables name) ∧
      (outcome = .ok PUnit.unit ↔ ∀ name ∈ names, database.dropAccepted references refuses name) := by
  induction names generalizing database with
  | nil => exact ⟨_, _, rfl, by simp, by simp⟩
  | cons first names inductionHypothesis =>
    obtain ⟨apart, ordered⟩ := pairwise_cons.mp ordered
    have step := Program.execute_attempt (dropTable references (refuses first) first) database
    rw [dropTables, Program.execute_forM_cons, step]
    rcases dropTable_eq database first with
      ⟨refusal, refused, rejected⟩ | ⟨dropped, accepted⟩
    · rw [refused]
      refine ⟨_, _, rfl, fun name => ?_, ?_⟩
      · simp [rejected]
      · simp [rejected]
    · rw [dropped]
      obtain ⟨outcome, after, executed, tables, succeeded⟩ :=
        inductionHypothesis (database.setTable first none) ordered
      -- What is still to be dropped is as referenced as it was before the first one went.
      have same : ∀ name ∈ names,
          (database.setTable first none).dropAccepted references refuses name =
            database.dropAccepted references refuses name := by
        intro name member
        rw [dropAccepted, dropAccepted, isReferenced_setTable_none database (apart name member)]
      have prefixes : names.takeWhile ((database.setTable first none).dropAccepted references refuses) =
          names.takeWhile (database.dropAccepted references refuses) :=
        takeWhile_congr same
      refine ⟨outcome, after, executed, fun name => ?_, ?_⟩
      · rw [tables, prefixes, takeWhile_cons, accepted, if_pos rfl, tables_setTable]
        by_cases here : name = first
        · simp [here]
        · simp [here]
      · rw [succeeded, forall_mem_cons]
        refine (forall₂_congr fun name member => ?_).trans (and_iff_right accepted).symm
        rw [same name member]

/-! ### Rows by key -/

/-- `INSERT OR REPLACE INTO name`, where `column` is the primary key. -/
def upsert (database : Database Name) (name : Name) (column : String) (row : SqlRow) :
    Database Name :=
  database.setTable name
    ((database.tables name).map fun rows =>
      (rows.filter fun other => decide (other column ≠ row column)) ++ [row])

/-- A statement that changes rows of a table. -/
def mapTable (database : Database Name) (name : Name) (change : SqlRow → SqlRow) : Database Name :=
  database.setTable name ((database.tables name).map (List.map change))

omit [DecidableEq Name] in
/-- The row of a table whose key column holds a text. -/
def lookup (database : Database Name) (name : Name) (column key : String) : Option SqlRow :=
  (database.rows name).find? fun row => row column = .text key

theorem rows_mapTable (database : Database Name) (name other : Name) (change : SqlRow → SqlRow) :
    (database.mapTable name change).rows other =
      if other = name then (database.rows name).map change else database.rows other := by
  rw [mapTable, rows, tables_setTable]
  split
  · rw [rows]
    cases database.tables name <;> rfl
  · rfl

variable {change : SqlRow → SqlRow}

theorem lookup_mapTable (database : Database Name) {column : String}
    (kept : ∀ row, change row column = row column) (other : Name) (key : String) :
    (database.mapTable name change).lookup other column key =
      if other = name then (database.lookup name column key).map change
      else database.lookup other column key := by
  rw [lookup, rows_mapTable]
  split
  · rw [find?_map, lookup]
    congr 2
    funext row
    rw [Function.comp_apply, kept]
  · rfl

theorem tables_upsert_of_ne (database : Database Name) {other : Name} (column : String)
    (row : SqlRow) (different : other ≠ name) :
    (database.upsert name column row).tables other = database.tables other := if_neg different

/-- No such statement makes a table or drops one. -/
theorem tables_upsert_eq_none_iff (database : Database Name) (name other : Name) (column : String)
    (row : SqlRow) : (database.upsert name column row).tables other = none ↔
      database.tables other = none := by
  rw [upsert, tables_setTable]
  split
  · rename_i same
    rw [same, Option.map_eq_none_iff]
  · rfl

theorem tables_mapTable_eq_none_iff (database : Database Name) (name other : Name)
    (change : SqlRow → SqlRow) : (database.mapTable name change).tables other = none ↔
      database.tables other = none := by
  rw [mapTable, tables_setTable]
  split
  · rename_i same
    rw [same, Option.map_eq_none_iff]
  · rfl

theorem mapTable_mapTable (database : Database Name) (name : Name)
    (first second : SqlRow → SqlRow) :
    (database.mapTable name first).mapTable name second =
      database.mapTable name (second ∘ first) := by
  refine ext_tables fun other => ?_
  simp only [mapTable, tables_setTable]
  split
  · cases database.tables name with
    | none => rfl
    | some rows => simp
  · rfl

theorem mapTable_congr {other : SqlRow → SqlRow}
    (same : ∀ row ∈ database.rows name, change row = other row) :
    database.mapTable name change = database.mapTable name other := by
  refine congrArg (database.setTable name) ?_
  cases stored : database.tables name with
  | none => rfl
  | some rows =>
    refine congrArg some (map_congr_left fun row member => same row ?_)
    rw [Database.rows, stored]
    exact member

theorem mapTable_id (database : Database Name) (name : Name) :
    database.mapTable name (fun row => row) = database := by
  refine ext_tables fun other => ?_
  rw [mapTable, tables_setTable]
  split
  · rename_i same
    rw [same]
    cases database.tables name <;> simp
  · rfl

theorem foldl_mapTable (name : Name) (change : Item → SqlRow → SqlRow) (items : List Item)
    (database : Database Name) :
    items.foldl (fun database item => database.mapTable name (change item)) database =
      database.mapTable name fun row => items.foldl (fun row item => change item row) row := by
  induction items generalizing database with
  | nil => exact (database.mapTable_id name).symm
  | cons item items inductionHypothesis =>
    rw [foldl_cons, inductionHypothesis, mapTable_mapTable]
    rfl

theorem rows_upsert (database : Database Name) (name other : Name) (column : String) (row : SqlRow)
    {stored : List SqlRow} (present : database.tables name = some stored) :
    (database.upsert name column row).rows other =
      if other = name then (stored.filter fun old => decide (old column ≠ row column)) ++ [row]
      else database.rows other := by
  rw [upsert, rows, tables_setTable, present]
  split <;> rfl

theorem lookup_upsert (database : Database Name) {column key : String} {row : SqlRow}
    (exist : database.tables name ≠ none) (named : row column = .text key) (other : Name)
    (otherColumn otherKey : String) (sameColumn : other = name → otherColumn = column) :
    (database.upsert name column row).lookup other otherColumn otherKey =
      if other = name ∧ otherKey = key then some row
      else database.lookup other otherColumn otherKey := by
  obtain ⟨stored, present⟩ := Option.ne_none_iff_exists'.mp exist
  rw [lookup, rows_upsert _ _ _ _ _ present]
  by_cases here : other = name
  · subst here
    have isColumn := sameColumn rfl
    subst isColumn
    have before : database.lookup other otherColumn otherKey =
        stored.find? fun row => row otherColumn = .text otherKey := by
      rw [lookup, rows, present]
      rfl
    rw [if_pos rfl, find?_append, find?_filter, before, named]
    by_cases same : otherKey = key
    · subst same
      have none : (stored.find? fun old =>
          decide (decide (old otherColumn ≠ .text otherKey) = true ∧
            decide (old otherColumn = .text otherKey) = true)) = none := by
        rw [find?_eq_none]
        simp
      rw [if_pos ⟨rfl, rfl⟩, none]
      simp [named]
    · have apart : (stored.find? fun old =>
          decide (decide (old otherColumn ≠ .text key) = true ∧
            decide (old otherColumn = .text otherKey) = true)) =
          stored.find? fun old => decide (old otherColumn = .text otherKey) := by
        congr 1
        funext old
        by_cases hit : old otherColumn = .text otherKey <;> simp [hit, same]
      have notNew : decide (row otherColumn = .text otherKey) = false := by
        simp [named, Ne.symm same]
      rw [if_neg fun both => same both.2, apart, find?_singleton, notNew]
      simp
  · rw [if_neg here, if_neg fun both => here both.1]
    rfl

/-! ### One column of a table -/

/-- `PRIMARY KEY`: no two rows agree on the column, where it has a value. -/
def UniqueOn (column : String) (rows : List SqlRow) : Prop :=
  rows.Pairwise fun row other => row column ≠ .null → row column ≠ other column

/-- The key and the bytes of a row, in two of its columns. -/
def cellOf (idColumn column : String) (row : SqlRow) : Option (String × List UInt8) :=
  match row idColumn, row column with
  | .text id, .blob bytes => some (id, bytes)
  | _, _ => none

/-- `SELECT idColumn, column FROM name WHERE column IS NOT NULL`, read as texts and bytes. -/
def selectColumn (rows : List SqlRow) (idColumn column : String) :
    Option (List (String × List UInt8)) :=
  (rows.filter fun row => decide (row column ≠ .null)).mapM (cellOf idColumn column)

/-- `UPDATE name SET column = bytes WHERE idColumn = id`, on a row. -/
def updateCell (idColumn column id : String) (bytes : List UInt8) (row : SqlRow) : SqlRow :=
  if row idColumn = .text id then row.set column (.blob bytes) else row

/-- A row with its bytes in one column converted. -/
def convertCell (idColumn column : String) (convert : String → List UInt8 → List UInt8)
    (row : SqlRow) : SqlRow :=
  match cellOf idColumn column row with
  | some (id, bytes) => row.set column (.blob (convert id bytes))
  | none => row

end Database

@[simp] theorem SqlRow.set_self (row : SqlRow) (column : String) (value : SqlValue) :
    row.set column value column = value := if_pos rfl

theorem SqlRow.set_of_ne (row : SqlRow) {column other : String} (value : SqlValue)
    (different : other ≠ column) : row.set column value other = row other := if_neg different

namespace Database

variable {idColumn column : String}

variable {row : SqlRow}

theorem cellOf_eq_some_iff {id : String} {bytes : List UInt8} :
    cellOf idColumn column row = some (id, bytes) ↔
      row idColumn = .text id ∧ row column = .blob bytes := by
  unfold cellOf
  split
  · rename_i otherId otherBytes isText isBlob
    rw [isText, isBlob]
    simp
  · rename_i apart
    constructor
    · intro impossible
      cases impossible
    · rintro ⟨isText, isBlob⟩
      exact absurd isBlob (apart id bytes isText)

variable {cells : List (String × List UInt8)}

theorem selectColumn_eq_some_iff {rows : List SqlRow} :
    selectColumn rows idColumn column = some cells ↔
      (∀ row ∈ rows, row column ≠ .null → (cellOf idColumn column row).isSome) ∧
        cells = rows.filterMap (cellOf idColumn column) := by
  induction rows generalizing cells with
  | nil => exact ⟨fun selected => ⟨by simp, (Option.some.inj selected).symm⟩, fun same => same.2 ▸ rfl⟩
  | cons row rows inductionHypothesis =>
    by_cases null : row column = .null
    · have noCell : cellOf idColumn column row = none := by
        unfold cellOf
        rw [null]
        split
        · rename_i isBlob
          cases isBlob
        · rfl
      have same : selectColumn (row :: rows) idColumn column = selectColumn rows idColumn column := by
        simp [selectColumn, null]
      rw [same, inductionHypothesis, forall_mem_cons, filterMap_cons_none noCell]
      simp [null]
    · have step : selectColumn (row :: rows) idColumn column =
          (cellOf idColumn column row).bind fun cell =>
            (selectColumn rows idColumn column).map (List.cons cell) := by
        simp only [selectColumn, filter_cons, null, ne_eq, not_false_eq_true, decide_true,
          if_true, mapM_cons, Option.bind_eq_bind, Option.pure_def]
        refine congrArg _ (funext fun cell => ?_)
        exact Option.map_eq_bind.symm
      rw [step, forall_mem_cons]
      cases found : cellOf idColumn column row with
      | none => simp [null]
      | some cell =>
        rw [filterMap_cons_some found]
        constructor
        · intro selected
          obtain ⟨rest, restSelected, rfl⟩ := Option.map_eq_some_iff.mp selected
          obtain ⟨readable, rfl⟩ := inductionHypothesis.mp restSelected
          exact ⟨⟨fun _ => rfl, readable⟩, rfl⟩
        · rintro ⟨⟨_, readable⟩, rfl⟩
          rw [Option.bind_some, inductionHypothesis.mpr ⟨readable, rfl⟩]
          rfl

/-- What the updates of some cells make of one row. -/
theorem foldl_updateCell_of_not_mem (convert : String → List UInt8 → List UInt8)
    (other : ∀ cell ∈ cells, row idColumn ≠ .text cell.1) :
    cells.foldl (fun row cell => updateCell idColumn column cell.1 (convert cell.1 cell.2) row) row =
      row := by
  induction cells with
  | nil => rfl
  | cons cell cells inductionHypothesis =>
    rw [foldl_cons, updateCell, if_neg (other cell (mem_cons_self ..))]
    exact inductionHypothesis fun later member => other later (mem_cons_of_mem _ member)

theorem foldl_map_rows {Cell : Type} (change : Cell → SqlRow → SqlRow) (cells : List Cell)
    (rows : List SqlRow) :
    cells.foldl (fun rows cell => rows.map (change cell)) rows =
      rows.map fun row => cells.foldl (fun row cell => change cell row) row := by
  induction cells generalizing rows with
  | nil => simp
  | cons cell cells inductionHypothesis =>
    rw [foldl_cons, inductionHypothesis, map_map]
    rfl

/-- Updating the rows one by one, each by its key, converts every row: no key names two. -/
theorem foldl_updateCell (apart : column ≠ idColumn)
    (convert : String → List UInt8 → List UInt8) {rows : List SqlRow}
    (unique : UniqueOn idColumn rows) :
    (rows.filterMap (cellOf idColumn column)).foldl (fun rows cell =>
        rows.map (updateCell idColumn column cell.1 (convert cell.1 cell.2))) rows =
      rows.map (convertCell idColumn column convert) := by
  rw [foldl_map_rows]
  refine map_congr_left fun row member => ?_
  -- The cells are cut at the one of this row; every other cell has another key.
  obtain ⟨before, after, rfl⟩ := append_of_mem member
  obtain ⟨_, tailUnique, between⟩ := pairwise_append.mp unique
  obtain ⟨later, _⟩ := pairwise_cons.mp tailUnique
  have notBefore : ∀ cell ∈ before.filterMap (cellOf idColumn column),
      row idColumn ≠ .text cell.1 := by
    intro cell found same
    obtain ⟨other, isBefore, isCell⟩ := mem_filterMap.mp found
    have otherId := (cellOf_eq_some_iff.mp isCell).1
    refine between other isBefore row (mem_cons_self ..) ?_ (otherId.trans same.symm)
    rw [otherId]
    simp
  have notAfter : ∀ cell ∈ after.filterMap (cellOf idColumn column),
      row idColumn ≠ .text cell.1 := by
    intro cell found same
    obtain ⟨other, isAfter, isCell⟩ := mem_filterMap.mp found
    have otherId := (cellOf_eq_some_iff.mp isCell).1
    refine later other isAfter ?_ (same.trans otherId.symm)
    rw [same]
    simp
  rw [filterMap_append, foldl_append, foldl_updateCell_of_not_mem convert notBefore]
  cases found : cellOf idColumn column row with
  | none =>
    rw [filterMap_cons_none found, foldl_updateCell_of_not_mem convert notAfter, convertCell,
      found]
  | some cell =>
    obtain ⟨isText, _⟩ := cellOf_eq_some_iff.mp found
    rw [filterMap_cons_some found, foldl_cons, updateCell, if_pos isText,
      foldl_updateCell_of_not_mem convert, convertCell, found]
    intro cell member
    rw [SqlRow.set_of_ne _ _ apart.symm]
    exact notAfter cell member

end Database

end Oryxis.Library

/-
This file is `destroy_and_recreate`, the way out for an owner who has lost the
master password.

The tables are dropped one statement at a time, outside any transaction, from a
list kept by hand; then the schema step creates what is missing. A table that the
list does not name is not missing, so its rows stay. And a drop that is refused
leaves the tables before it dropped: the third one is refused whenever a
connection is in a stored group, and the two before it hold the salt, the password
check and the settings.
-/

import Oryxis.Vault.Schema

namespace Oryxis

open Library

namespace TableName

/-- The tables `destroy_and_recreate` drops, in its order. -/
def dropped : List TableName :=
  [.vaultMeta, .settings, .groups, .sessionGroups, .connections, .keys, .snippets,
    .customTerminalThemes, .customUiThemes, .portForwardRules, .identities, .proxyIdentities,
    .knownHosts, .logs, .sessionLogs, .sessionLogChunks, .commandHistory, .cloudProfiles,
    .syncPeers, .syncMetadata]

theorem dropped_referencesLast : Database.ReferencesLast references dropped := by decide

variable {name : TableName}

theorem mem_base_of_not_mem_dropped (kept : name ∉ dropped) : name ∈ base := by
  revert kept
  cases name <;> decide

theorem mem_dropped_of_mem_sync (late : name ∈ sync) : name ∈ dropped := by
  revert late
  cases name <;> decide

end TableName

/-- An open vault: its file, and the keys it has in memory. -/
structure VaultHandle where
  db : Database TableName
  masterKey : Option (List UInt8)
  sessionLogKey : Option (List UInt8)

/-- The batch of drops. -/
def dropEverything (engine : Engine) : Program (Database TableName) Database.Refusal PUnit := do
  Database.dropTables TableName.references engine.refusesDrop TableName.dropped
  Engine.statement engine.refusesVacuum

def destroyAndRecreate (engine : Engine) (vault : VaultHandle) :
    Except Database.Refusal PUnit × VaultHandle :=
  match (dropEverything engine).execute vault.db with
  | (.error refusal, db) => (.error refusal, { vault with db := db })
  | (.ok _, db) =>
    let (outcome, db) := (createTables engine).execute db
    (outcome, { db := db, masterKey := none, sessionLogKey := none })

/-- The file a first start makes. -/
def freshDatabase (engine : Engine) : Database TableName :=
  ((createTables engine).execute Database.absent).2

/-- A success leaves a fresh file, and a failure leaves every row. -/
def DestroysOrKeeps (engine : Engine) (vault : VaultHandle) : Prop :=
  match destroyAndRecreate engine vault with
  | (.ok _, after) => after.db = freshDatabase engine
  | (.error _, after) => ∀ name, after.db.rows name = vault.db.rows name

/-! ### When it does -/

/-- The engine carries out everything, and no row stands in the way of a drop. -/
def GoesThrough (engine : Engine) (db : Database TableName) : Prop :=
  (∀ name ∈ TableName.dropped, db.dropAccepted TableName.references engine.refusesDrop name) ∧
    engine.refusesVacuum = false ∧ (∀ name ∈ TableName.base, engine.refusesCreate name = false) ∧
      engine.refusesMigration = false

instance (engine : Engine) (db : Database TableName) : Decidable (GoesThrough engine db) :=
  inferInstanceAs (Decidable (_ ∧ _))

/-- What stays where it goes through, and what goes where it does not, is empty. -/
def NothingAtStake (engine : Engine) (db : Database TableName) : Prop :=
  if GoesThrough engine db then ∀ name ∉ TableName.dropped, db.rows name = []
  else
    ∀ name ∈ TableName.dropped.takeWhile
      (db.dropAccepted TableName.references engine.refusesDrop), db.rows name = []

/-- The drops of an engine, in the order of the list. -/
theorem execute_dropped (engine : Engine) (db : Database TableName) :
    ∃ outcome after,
      (Database.dropTables TableName.references engine.refusesDrop TableName.dropped).execute db =
        (outcome, after) ∧
      (∀ name, after.tables name =
        if name ∈ TableName.dropped.takeWhile
          (db.dropAccepted TableName.references engine.refusesDrop) then none
        else db.tables name) ∧
      (outcome = .ok PUnit.unit ↔ ∀ name ∈ TableName.dropped,
        db.dropAccepted TableName.references engine.refusesDrop name) :=
  Database.execute_dropTables db TableName.dropped_referencesLast

variable {db after : Database TableName} {gone : List TableName}

theorem rows_of_dropped
    (tables : ∀ name, after.tables name = if name ∈ gone then none else db.tables name)
    (name : TableName) : after.rows name = if name ∈ gone then [] else db.rows name := by
  rw [Database.rows, tables]
  split <;> rfl

/-- Rows that are gone are missed where there were any. -/
theorem keeps_iff_of_dropped
    (rows : ∀ name, after.rows name = if name ∈ gone then [] else db.rows name) :
    (∀ name, after.rows name = db.rows name) ↔ ∀ name ∈ gone, db.rows name = [] := by
  constructor
  · intro same name member
    rw [← same, rows, if_pos member]
  · intro empty name
    rw [rows]
    split
    · rename_i member
      exact (empty name member).symm
    · rfl

/-- The file after all the drops and the schema step is fresh where nothing survived. -/
theorem fresh_iff_of_dropped {engine : Engine} {empty : Database TableName}
    (tables : ∀ name, empty.tables name = if name ∈ TableName.dropped then none else db.tables name)
    (executed : (createTables engine).execute empty = (.ok PUnit.unit, after)) :
    after = freshDatabase engine ↔ ∀ name ∉ TableName.dropped, db.rows name = [] := by
  obtain ⟨_, _, sameRun, _, accepted, created⟩ := execute_createTables engine empty
  rw [executed] at sameRun
  cases sameRun
  obtain ⟨_, fresh, freshRun, _, freshAccepted, freshTables⟩ :=
    execute_createTables engine Database.absent
  have freshDone := freshAccepted.mpr (accepted.mp rfl)
  have isFresh : freshDatabase engine = fresh := by rw [freshDatabase, freshRun]
  have rows := rows_of_dropped tables
  rw [isFresh]
  constructor
  · intro same name kept
    have here := created rfl name
    rw [same, freshTables freshDone, if_pos (TableName.mem_base_of_not_mem_dropped kept),
      if_pos (TableName.mem_base_of_not_mem_dropped kept)] at here
    have survived := (Option.some.inj here).symm
    rwa [rows, if_neg kept] at survived
  · intro nothing
    refine Database.ext_tables fun name => ?_
    have noRows : empty.rows name = [] := by
      rw [rows]
      split
      · rfl
      · rename_i kept
        exact nothing name kept
    rw [created rfl, freshTables freshDone, noRows]
    -- Outside the base tables there are those of the sync engine, and these were dropped.
    by_cases inBase : name ∈ TableName.base
    · rw [if_pos inBase, if_pos inBase]
      rfl
    · have late := (TableName.mem_base_or_sync name).resolve_left inBase
      rw [if_neg inBase, if_neg inBase, tables, if_pos (TableName.mem_dropped_of_mem_sync late)]
      rfl

/-- Destroying a vault leaves a fresh one, or the old one, exactly when nothing was at stake. -/
theorem destroysOrKeeps_iff (engine : Engine) (vault : VaultHandle) :
    DestroysOrKeeps engine vault ↔ NothingAtStake engine vault.db := by
  obtain ⟨outcome, empty, executed, tables, succeeded⟩ :=
    execute_dropped engine vault.db
  have rows := rows_of_dropped tables
  unfold DestroysOrKeeps NothingAtStake destroyAndRecreate
  cases outcome with
  | error refusal =>
    have notThrough : ¬ GoesThrough engine vault.db := fun through => by
      cases succeeded.mpr through.1
    rw [dropEverything, Program.execute_bind_of_error _ executed, if_neg notThrough]
    exact keeps_iff_of_dropped rows
  | ok done =>
    have accepted := succeeded.mp rfl
    have all : TableName.dropped.takeWhile
        (vault.db.dropAccepted TableName.references engine.refusesDrop) = TableName.dropped :=
      List.takeWhile_eq_self_iff.mpr accepted
    rw [all] at tables rows ⊢
    rw [dropEverything, Program.execute_bind_of_ok _ executed, Engine.execute_statement]
    cases vacuum : engine.refusesVacuum with
    | true =>
      have notThrough : ¬ GoesThrough engine vault.db := fun through => by
        rw [through.2.1] at vacuum
        cases vacuum
      rw [if_pos rfl, if_neg notThrough]
      exact keeps_iff_of_dropped rows
    | false =>
      obtain ⟨created, after, createdRun, createdRows, createdDone, _⟩ :=
        execute_createTables engine empty
      rw [if_neg Bool.false_ne_true]
      dsimp only
      rw [createdRun]
      cases created with
      | error refusal =>
        have notThrough : ¬ GoesThrough engine vault.db := fun through => by
          cases createdDone.mpr through.2.2
        rw [if_neg notThrough]
        exact keeps_iff_of_dropped fun name => (createdRows name).trans (rows name)
      | ok _ =>
        rw [if_pos ⟨accepted, vacuum, createdDone.mp rfl⟩]
        exact fresh_iff_of_dropped tables createdRun

/-! ### A willing engine -/

/-- A row with one column. -/
def cell (column : String) (value : SqlValue) : SqlRow := SqlRow.null.set column value

/-- A vault with a login script. -/
def vaultWithScript : VaultHandle where
  db := Database.absent.setTable .loginScripts (some [cell "id" (.text "script")])
  masterKey := none
  sessionLogKey := none

/-- A vault with a salt, and with a connection in a group. -/
def vaultWithGroup : VaultHandle where
  db := ((Database.absent.setTable .vaultMeta (some [cell "key" (.text "kdf_salt")])).setTable
    .groups (some [cell "id" (.text "group")])).setTable
    .connections (some [cell "group_id" (.text "group")])
  masterKey := none
  sessionLogKey := none

/-- The script outlives the destruction of its vault; and the vault with a group is not destroyed,
but has lost its salt. -/
theorem not_destroysOrKeeps :
    ¬ DestroysOrKeeps Engine.willing vaultWithScript ∧
      ¬ DestroysOrKeeps Engine.willing vaultWithGroup := by
  constructor
  · intro fresh
    have same := congrArg (fun db => (db.rows .loginScripts).length) fresh
    exact absurd same (by decide)
  · intro kept
    have same := congrArg List.length (kept .vaultMeta)
    exact absurd same (by decide)

end Oryxis

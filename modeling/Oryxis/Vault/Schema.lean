/-
This file is the schema of the vault's database and the step that creates it.

`create_tables` runs on every open. The base tables are created one statement at a
time and the first refusal is reported; the two tables of the sync engine come
last, and a refusal there is dropped. The one reference of the schema goes from
the group of a connection to the groups.
-/

import Oryxis.Library.Database

namespace Oryxis

open Library

inductive TableName where
  | vaultMeta
  | settings
  | groups
  | sessionGroups
  | connections
  | keys
  | snippets
  | installRuns
  | customTerminalThemes
  | customUiThemes
  | portForwardRules
  | identities
  | proxyIdentities
  | loginScripts
  | knownHosts
  | trustedProxyCommands
  | logs
  | sessionLogs
  | sessionLogChunks
  | commandHistory
  | cloudProfiles
  | chatConversations
  | chatMessages
  | syncPeers
  | syncMetadata
  deriving DecidableEq, Repr

namespace TableName

/-- The tables of the first batch of `create_tables`, in its order. -/
def base : List TableName :=
  [.vaultMeta, .settings, .groups, .sessionGroups, .connections, .keys, .snippets, .installRuns,
    .customTerminalThemes, .customUiThemes, .portForwardRules, .identities, .proxyIdentities,
    .loginScripts, .knownHosts, .trustedProxyCommands, .logs, .sessionLogs, .sessionLogChunks,
    .commandHistory, .cloudProfiles, .chatConversations, .chatMessages]

/-- The tables of its last batch. -/
def sync : List TableName := [.syncPeers, .syncMetadata]

/-- The `REFERENCES` clauses of the schema. -/
def references : List (Reference TableName) := [⟨.connections, "group_id", .groups, "id"⟩]

theorem mem_base_or_sync (name : TableName) : name ∈ base ∨ name ∈ sync := by
  cases name <;> decide

end TableName

/-- What the engine refuses for reasons of its own: a lock it cannot take, a full disk. -/
structure Engine where
  refusesDrop : TableName → Bool
  refusesVacuum : Bool
  refusesCreate : TableName → Bool
  refusesMigration : Bool

/-- An engine that carries out every statement the schema allows. -/
def Engine.willing : Engine where
  refusesDrop _ := false
  refusesVacuum := false
  refusesCreate _ := false
  refusesMigration := false

/-- A statement that writes no row. -/
def Engine.statement (refused : Bool) : Program (Database TableName) Database.Refusal PUnit :=
  if refused then throw .engine else pure PUnit.unit

theorem Engine.execute_statement (refused : Bool) (database : Database TableName) :
    (Engine.statement refused).execute database =
      (if refused then .error .engine else .ok PUnit.unit, database) := by
  cases refused <;> rfl

/-- The last batch. It may stop half-way without anyone hearing of it. -/
def createSyncTables (engine : Engine) (database : Database TableName) : Database TableName :=
  ((Database.createTables engine.refusesCreate TableName.sync).execute database).2

/-- The schema step of an open. -/
def createTables (engine : Engine) : Program (Database TableName) Database.Refusal PUnit := do
  Database.createTables engine.refusesCreate TableName.base
  Engine.statement engine.refusesMigration
  modify (createSyncTables engine)

theorem tables_createSyncTables (engine : Engine) (database : Database TableName)
    (name : TableName) : (createSyncTables engine database).tables name =
      if name ∈ TableName.sync.takeWhile fun name => !engine.refusesCreate name then
        some (database.rows name)
      else database.tables name := by
  obtain ⟨_, after, executed, tables, _⟩ :=
    Database.execute_createTables engine.refusesCreate TableName.sync database
  rw [createSyncTables, executed]
  exact tables name

/-- The schema step keeps every row. Where it succeeds the base tables exist. -/
theorem execute_createTables (engine : Engine) (database : Database TableName) :
    ∃ outcome after, (createTables engine).execute database = (outcome, after) ∧
      (∀ name, after.rows name = database.rows name) ∧
      (outcome = .ok PUnit.unit ↔
        (∀ name ∈ TableName.base, engine.refusesCreate name = false) ∧
          engine.refusesMigration = false) ∧
      (outcome = .ok PUnit.unit → ∀ name, after.tables name =
        if name ∈ TableName.base then some (database.rows name)
        else if name ∈ TableName.sync.takeWhile fun name => !engine.refusesCreate name then
          some (database.rows name)
        else database.tables name) := by
  obtain ⟨outcome, created, executed, tables, succeeded⟩ :=
    Database.execute_createTables engine.refusesCreate TableName.base database
  have kept : ∀ name, created.rows name = database.rows name :=
    fun name => Database.rows_of_tables (tables name)
  cases outcome with
  | error refusal =>
    refine ⟨_, _, Program.execute_bind_of_error _ executed, kept, ?_, fun done => by cases done⟩
    refine iff_of_false (by simp) fun accepted => ?_
    cases succeeded.mpr accepted.1
  | ok done =>
    have accepted := succeeded.mp rfl
    rw [createTables, Program.execute_bind_of_ok _ executed, Program.execute_bind,
      Engine.execute_statement]
    cases refused : engine.refusesMigration with
    | true => exact ⟨_, _, rfl, kept, iff_of_false (by simp) (by simp), fun done => by cases done⟩
    | false =>
      have syncTables := tables_createSyncTables engine created
      refine ⟨_, _, rfl, fun name => ?_, iff_of_true rfl ⟨accepted, rfl⟩, fun _ name => ?_⟩
      · exact (Database.rows_of_tables (syncTables name)).trans (kept name)
      · have every : TableName.base.takeWhile (fun name => !engine.refusesCreate name) =
            TableName.base :=
          List.takeWhile_eq_self_iff.mpr fun name member => by rw [accepted name member]; rfl
        refine (syncTables name).trans ?_
        rw [kept, tables, every]
        by_cases inBase : name ∈ TableName.base <;> simp [inBase]

end Oryxis

/-
This file is the vault store: the synced tables, the tombstones of what was
deleted from them, and the statements the store issues against both.

Every save ends in `replaceRow`, an `INSERT OR REPLACE` followed by clearing the
tombstone of the entity, and every delete in `removeRow`, a `DELETE` followed by
recording a tombstone stamped with the clock. What the operations do beyond that
is what the rest of the development turns on: a deleted host takes its
port-forward rules along, a deleted identity, proxy identity or login script is
cleared from the hosts that name it, and saving a pin deletes the other pins of
the same hostname, port and key type.

The statements themselves can be refused in one way only, by the reference from
`connections.group_id` to `groups`, and only where the engine enforces foreign
keys; `foreignKeys` says whether it does.
-/

import Oryxis.Library.Table
import Oryxis.Vault.Entities

namespace Oryxis

open Library

structure Tombstone where
  entityKey : EntityKey
  deletedAt : Stamp

structure SyncPeer where
  peerId : Uuid
  deviceName : String
  publicKey : String
  sharedSecret : Option String
  pairedAt : Stamp
  isActive : Bool
  lastSyncedAt : Option Stamp

inductive LogEvent where
  | connected
  | disconnected
  | authFailed
  | error
  | syncApplied

structure LogEntry where
  connectionLabel : String
  hostname : String
  event : LogEvent
  message : String

structure VaultStore where
  rows : Table Row.key Row.endpoint
  tombstones : Table Tombstone.entityKey Table.noIndex
  syncPeers : Table SyncPeer.peerId Table.noIndex
  logs : List LogEntry
  /-- The setting `sync_passwords`. -/
  syncPasswords : Bool
  /-- Whether the engine enforces `REFERENCES groups(id)`. -/
  foreignKeys : Bool

inductive VaultError where
  | foreignKey

namespace VaultStore

/-- A fresh vault. -/
def empty (syncPasswords foreignKeys : Bool) : VaultStore where
  rows := Table.empty
  tombstones := Table.empty
  syncPeers := Table.empty
  logs := []
  syncPasswords := syncPasswords
  foreignKeys := foreignKeys

/-! ### What is stored under a key -/

def rowOf (vault : VaultStore) (key : EntityKey) : Option Row := vault.rows.get? key

def deletedAt (vault : VaultStore) (key : EntityKey) : Option Stamp :=
  (vault.tombstones.get? key).map Tombstone.deletedAt

def listConnections (vault : VaultStore) : List Connection :=
  vault.rows.rows.filterMap fun row =>
    match row with
    | .connection host _ => some host
    | _ => none

def listGroups (vault : VaultStore) : List Group :=
  vault.rows.rows.filterMap fun row =>
    match row with
    | .group group => some group
    | _ => none

def listKnownHosts (vault : VaultStore) : List KnownHost :=
  vault.rows.rows.filterMap fun row =>
    match row with
    | .knownHost pin => some pin
    | _ => none

def listPortForwardRules (vault : VaultStore) : List PortForwardRule :=
  vault.rows.rows.filterMap fun row =>
    match row with
    | .portForwardRule rule => some rule
    | _ => none

/-! ### Tombstones -/

def recordTombstone (vault : VaultStore) (key : EntityKey) (now : Stamp) : VaultStore :=
  { vault with tombstones := vault.tombstones.insertOrReplace ⟨key, now⟩ }

def clearTombstone (vault : VaultStore) (key : EntityKey) : VaultStore :=
  { vault with
    tombstones := vault.tombstones.deleteWhere fun tombstone => tombstone.entityKey = key }

/-- What every `save_*` ends in: `INSERT OR REPLACE`, and the tombstone goes. -/
def replaceRow (vault : VaultStore) (row : Row) : VaultStore :=
  { vault with rows := vault.rows.insertOrReplace row }.clearTombstone row.key

/-- What every `delete_*` ends in: the row goes, and a tombstone stamped now stands for it. -/
def removeRow (vault : VaultStore) (key : EntityKey) (now : Stamp) : VaultStore :=
  { vault with rows := vault.rows.deleteWhere fun row => row.key = key }.recordTombstone key now

/-! ### Secret columns -/

/-- The tri-state argument of the `save_*` methods: nothing keeps the stored column, an empty
string clears it, anything else replaces it. -/
def secretColumn (argument stored : Option String) : Option String :=
  match argument with
  | none => stored
  | some value => if value = "" then none else some value

end VaultStore

def ConnectionSecrets.unset : ConnectionSecrets where
  password := none
  proxyPassword := none
  totpSecret := none
  targetPassword := none

namespace Row

/-- The one secret column of a row that is not a connection. -/
def secret : Row → Option String
  | .sshKey _ privateKey => privateKey
  | .identity _ password => password
  | .proxyIdentity _ password => password
  | .cloudProfile _ secret => secret
  | _ => none

def connectionSecrets : Row → ConnectionSecrets
  | .connection _ secrets => secrets
  | _ => ConnectionSecrets.unset

end Row

namespace VaultStore

def secretOf (vault : VaultStore) (key : EntityKey) : Option String :=
  (vault.rowOf key).bind Row.secret

def secretsOf (vault : VaultStore) (id : Uuid) : ConnectionSecrets :=
  ((vault.rowOf (.connection, id)).map Row.connectionSecrets).getD ConnectionSecrets.unset

def getKeyPrivate (vault : VaultStore) (id : Uuid) : Option String :=
  vault.secretOf (.sshKey, id)

def getIdentityPassword (vault : VaultStore) (id : Uuid) : Option String :=
  vault.secretOf (.identity, id)

def getProxyIdentityPassword (vault : VaultStore) (id : Uuid) : Option String :=
  vault.secretOf (.proxyIdentity, id)

def getCloudProfileSecret (vault : VaultStore) (id : Uuid) : Option String :=
  vault.secretOf (.cloudProfile, id)

/-! ### The effect of a statement on every key -/

variable {vault : VaultStore} {key : EntityKey} {row : Row}

theorem key_of_rowOf (found : vault.rowOf key = some row) : row.key = key :=
  Table.key_of_get? found

theorem rowOf_of_mem (member : row ∈ vault.rows.rows) :
    vault.rowOf row.key = some row :=
  Table.get?_of_mem member

theorem deletedAt_recordTombstone (vault : VaultStore) (gone key : EntityKey) (now : Stamp) :
    (vault.recordTombstone gone now).deletedAt key =
      if key = gone then some now else vault.deletedAt key := by
  simp only [deletedAt, recordTombstone]
  rw [Table.get?_insertOrReplace_of_null _ _ _ rfl]
  split <;> rfl

theorem deletedAt_clearTombstone (vault : VaultStore) (back key : EntityKey) :
    (vault.clearTombstone back).deletedAt key =
      if key = back then none else vault.deletedAt key := by
  simp only [deletedAt, clearTombstone, Table.get?_deleteWhere]
  cases found : vault.tombstones.get? key with
  | none => simp
  | some tombstone =>
    have same : tombstone.entityKey = key := Table.key_of_get? found
    by_cases equal : key = back
    · simp [Option.filter, same, equal]
    · simp [Option.filter, same, equal]

theorem deletedAt_replaceRow (vault : VaultStore) (row : Row) (key : EntityKey) :
    (vault.replaceRow row).deletedAt key =
      if key = row.key then none else vault.deletedAt key := by
  rw [replaceRow, deletedAt_clearTombstone]
  rfl

theorem rowOf_replaceRow (vault : VaultStore) (row : Row) (key : EntityKey) :
    (vault.replaceRow row).rowOf key =
      if key = row.key then some row
      else (vault.rowOf key).filter fun other => !Table.displaces Row.key Row.endpoint row other :=
  Table.get?_insertOrReplace vault.rows row key

/-- Saving anything but a pin leaves the rows of every other key alone. -/
theorem rowOf_replaceRow_of_null (vault : VaultStore) (row : Row) (key : EntityKey)
    (null : row.endpoint = none) :
    (vault.replaceRow row).rowOf key = if key = row.key then some row else vault.rowOf key :=
  Table.get?_insertOrReplace_of_null vault.rows row key null

theorem rowOf_removeRow (vault : VaultStore) (gone key : EntityKey) (now : Stamp) :
    (vault.removeRow gone now).rowOf key = if key = gone then none else vault.rowOf key := by
  have filtered : (vault.removeRow gone now).rowOf key =
      (vault.rowOf key).filter fun row => !decide (row.key = gone) :=
    Table.get?_deleteWhere vault.rows (fun row => decide (row.key = gone)) key
  rw [filtered]
  cases found : vault.rowOf key with
  | none => simp
  | some row =>
    have same : row.key = key := key_of_rowOf found
    by_cases equal : key = gone
    · simp [Option.filter, same, equal]
    · simp [Option.filter, same, equal]

theorem deletedAt_removeRow (vault : VaultStore) (gone key : EntityKey) (now : Stamp) :
    (vault.removeRow gone now).deletedAt key =
      if key = gone then some now else vault.deletedAt key := by
  rw [removeRow, deletedAt_recordTombstone]
  rfl

@[simp] theorem mem_listGroups (vault : VaultStore) (group : Group) :
    group ∈ vault.listGroups ↔ vault.rowOf (.group, group.id) = some (.group group) := by
  constructor
  · intro member
    obtain ⟨row, rowMember, same⟩ := List.mem_filterMap.mp member
    cases row <;> simp at same
    subst same
    exact rowOf_of_mem rowMember
  · intro found
    exact List.mem_filterMap.mpr ⟨_, Table.mem_of_get? found, rfl⟩

@[simp] theorem mem_listKnownHosts (vault : VaultStore) (pin : KnownHost) :
    pin ∈ vault.listKnownHosts ↔ vault.rowOf (.knownHost, pin.id) = some (.knownHost pin) := by
  constructor
  · intro member
    obtain ⟨row, rowMember, same⟩ := List.mem_filterMap.mp member
    cases row <;> simp at same
    subst same
    exact rowOf_of_mem rowMember
  · intro found
    exact List.mem_filterMap.mpr ⟨_, Table.mem_of_get? found, rfl⟩

@[simp] theorem mem_listConnections (vault : VaultStore) (host : Connection) :
    host ∈ vault.listConnections ↔
      ∃ secrets, vault.rowOf (.connection, host.id) = some (.connection host secrets) := by
  constructor
  · intro member
    obtain ⟨row, rowMember, same⟩ := List.mem_filterMap.mp member
    cases row <;> simp at same
    subst same
    exact ⟨_, rowOf_of_mem rowMember⟩
  · rintro ⟨secrets, found⟩
    exact List.mem_filterMap.mpr ⟨_, Table.mem_of_get? found, rfl⟩

@[simp] theorem mem_listPortForwardRules (vault : VaultStore) (rule : PortForwardRule) :
    rule ∈ vault.listPortForwardRules ↔
      vault.rowOf (.portForwardRule, rule.id) = some (.portForwardRule rule) := by
  constructor
  · intro member
    obtain ⟨row, rowMember, same⟩ := List.mem_filterMap.mp member
    cases row <;> simp at same
    subst same
    exact rowOf_of_mem rowMember
  · intro found
    exact List.mem_filterMap.mpr ⟨_, Table.mem_of_get? found, rfl⟩

/-- Two stored pins of one hostname and port are one row. -/
theorem endpoint_unique {otherKey : EntityKey} {other : Row} {endpoint : String × Nat}
    (found : vault.rowOf key = some row) (otherFound : vault.rowOf otherKey = some other)
    (rowEndpoint : row.endpoint = some endpoint) (otherEndpoint : other.endpoint = some endpoint) :
    row = other :=
  vault.rows.eq_of_unique (Table.mem_of_get? found) (Table.mem_of_get? otherFound) rowEndpoint
    otherEndpoint

end VaultStore

end Oryxis

/-
This file says what each operation of the store does to every key: which row is
stored under it afterwards, and which tombstone stands for it.

Two descriptions cover all of them. A save of `row` stores it under its key,
clears the tombstone there, and removes the pins that stand in its way; of those,
only the stale ones, which share its key type, leave a tombstone. A delete of
`gone` removes the row, records a tombstone, takes the port-forward rules of a
deleted host along with theirs, and clears the references to it. Everything the
later files prove about runs of the store is proved from these two, so no proof
there unfolds an operation.
-/

import Oryxis.Vault.Operations

namespace Oryxis

open Library List

/-- A port-forward rule of a deleted host. -/
def Row.orphanedBy (gone : EntityKey) : Row → Bool
  | .portForwardRule rule => decide ((EntityType.connection, rule.hostId) = gone)
  | _ => false

/-- Another pin of the same hostname, port and key type as a saved one. -/
def Row.staleFor (row : Row) : Row → Bool
  | .knownHost other =>
    match row with
    | .knownHost pin =>
      other.hostname = pin.hostname && other.port = pin.port && other.keyType = pin.keyType &&
        other.id != pin.id
    | _ => false
  | _ => false

namespace VaultStore

/-- What a vault holds besides its rows, its tombstones and its log. -/
def surroundings (vault : VaultStore) : Table SyncPeer.peerId Table.noIndex × Bool × Bool :=
  (vault.syncPeers, vault.syncPasswords, vault.foreignKeys)

/-- Two vaults that differ in nothing but their logs. -/
structure SameEntities (vault other : VaultStore) : Prop where
  rowOf : ∀ key, other.rowOf key = vault.rowOf key
  deletedAt : ∀ key, other.deletedAt key = vault.deletedAt key
  surroundings : other.surroundings = vault.surroundings

/-- What a save of `row` does to every key. -/
structure Saves (vault : VaultStore) (row : Row) (now : Stamp) (saved : VaultStore) : Prop where
  rowOf : ∀ key, saved.rowOf key =
    if key = row.key then some row
    else (vault.rowOf key).filter fun other => !Table.displaces Row.key Row.endpoint row other
  deletedAt : ∀ key, saved.deletedAt key =
    if key = row.key then none
    else if (vault.rowOf key).any row.staleFor then some now else vault.deletedAt key
  surroundings : saved.surroundings = vault.surroundings

/-- What a delete of `gone` does to every key. -/
structure Deletes (vault : VaultStore) (gone : EntityKey) (now : Stamp)
    (deleted : VaultStore) : Prop where
  rowOf : ∀ key, deleted.rowOf key =
    if key = gone then none
    else ((vault.rowOf key).filter fun row => !row.orphanedBy gone).map (Row.detach gone)
  deletedAt : ∀ key, deleted.deletedAt key =
    if key = gone ∨ (vault.rowOf key).any (Row.orphanedBy gone) then some now
    else vault.deletedAt key
  surroundings : deleted.surroundings = vault.surroundings

/-! ### Removing several rows of one table -/

theorem look_foldl_removeRow {Seen : Type} {look : VaultStore → EntityKey → Seen} {seen : Seen}
    {now : Stamp} (removed : ∀ vault gone key, look (vault.removeRow gone now) key =
      if key = gone then seen else look vault key)
    (type : EntityType) (ids : List Uuid) (vault : VaultStore) (key : EntityKey) :
    look (ids.foldl (fun vault id => vault.removeRow (type, id) now) vault) key =
      if key.1 = type ∧ key.2 ∈ ids then seen else look vault key := by
  induction ids generalizing vault with
  | nil => simp
  | cons id ids inductionHypothesis =>
    rw [foldl_cons, inductionHypothesis, removed]
    obtain ⟨keyType, keyId⟩ := key
    by_cases sameType : keyType = type <;> by_cases sameId : keyId = id <;>
      simp [sameType, sameId]

theorem surroundings_foldl_removeRow (type : EntityType) (ids : List Uuid) (vault : VaultStore)
    (now : Stamp) :
    (ids.foldl (fun vault id => vault.removeRow (type, id) now) vault).surroundings =
      vault.surroundings := by
  induction ids generalizing vault with
  | nil => rfl
  | cons id ids inductionHypothesis =>
    rw [foldl_cons, inductionHypothesis]
    rfl

/-! ### Saves -/

/-- A row that is no pin displaces nothing but the row of its own key. -/
theorem filter_displaces_of_null {vault : VaultStore} {row : Row} {key : EntityKey}
    (null : row.endpoint = none) (different : key ≠ row.key) :
    ((vault.rowOf key).filter fun other => !Table.displaces Row.key Row.endpoint row other) =
      vault.rowOf key := by
  cases found : vault.rowOf key with
  | none => rfl
  | some other =>
    have notSame : other.key ≠ row.key := by
      rw [key_of_rowOf found]
      exact different
    have apart : Table.displaces Row.key Row.endpoint row other = false := by
      cases index : other.endpoint <;> simp [Table.displaces, notSame, null, index]
    rw [Option.filter_some, apart]
    rfl

theorem any_staleFor_of_null {row : Row} (null : row.endpoint = none) (stored : Option Row) :
    stored.any row.staleFor = false := by
  cases stored with
  | none => rfl
  | some other => cases other <;> cases row <;> first | rfl | cases null

theorem saves_of_null {vault saved : VaultStore} {row : Row} (now : Stamp)
    (null : row.endpoint = none)
    (rowOf : ∀ key, saved.rowOf key = if key = row.key then some row else vault.rowOf key)
    (deletedAt : ∀ key, saved.deletedAt key =
      if key = row.key then none else vault.deletedAt key)
    (surroundings : saved.surroundings = vault.surroundings) : vault.Saves row now saved where
  rowOf key := by
    rw [rowOf]
    split
    · rfl
    · rename_i different
      rw [filter_displaces_of_null null different]
  deletedAt key := by
    rw [deletedAt, any_staleFor_of_null null]
    rfl
  surroundings := surroundings

theorem saves_replaceRow (vault : VaultStore) (row : Row) (now : Stamp)
    (null : row.endpoint = none) : vault.Saves row now (vault.replaceRow row) :=
  saves_of_null now null (fun key => vault.rowOf_replaceRow_of_null row key null)
    (vault.deletedAt_replaceRow row) rfl

theorem mem_stalePins (vault : VaultStore) (pin : KnownHost) (key : EntityKey) :
    (key.1 = .knownHost ∧ key.2 ∈ vault.stalePins pin) ↔
      (vault.rowOf key).any (Row.knownHost pin).staleFor = true := by
  rw [Option.any_eq_true]
  constructor
  · rintro ⟨sameType, member⟩
    obtain ⟨other, stale, sameId⟩ := mem_map.mp member
    obtain ⟨listed, agrees⟩ := mem_filter.mp stale
    rw [mem_listKnownHosts] at listed
    have here : key = (.knownHost, other.id) := Prod.ext sameType sameId.symm
    exact ⟨.knownHost other, here ▸ listed, agrees⟩
  · rintro ⟨row, found, agrees⟩
    cases row with
    | knownHost other =>
      have here : key = (.knownHost, other.id) := (key_of_rowOf found).symm
      subst here
      exact ⟨rfl, mem_map.mpr
        ⟨other, mem_filter.mpr ⟨(vault.mem_listKnownHosts other).mpr found, agrees⟩, rfl⟩⟩
    | _ => cases agrees

/-- A stale pin stands in the way of the saved one: it has its hostname and port. -/
theorem displaces_of_staleFor {row other : Row} (stale : row.staleFor other = true) :
    Table.displaces Row.key Row.endpoint row other = true := by
  cases other <;> cases row <;> simp_all [Row.staleFor, Table.displaces, Row.endpoint]

theorem saves_saveKnownHost (vault : VaultStore) (pin : KnownHost) (now : Stamp) :
    vault.Saves (.knownHost pin) now (vault.saveKnownHost pin now) where
  rowOf key := by
    rw [saveKnownHost, rowOf_replaceRow]
    simp only [deleteKnownHost]
    rw [look_foldl_removeRow fun _ _ _ => rowOf_removeRow ..]
    split
    · rfl
    · split
      · rename_i stale
        obtain ⟨row, found, agrees⟩ :=
          (Option.any_eq_true _ _).mp ((vault.mem_stalePins pin key).mp stale)
        rw [found, Option.filter_none, Option.filter_some, displaces_of_staleFor agrees]
        rfl
      · rfl
  deletedAt key := by
    rw [saveKnownHost, deletedAt_replaceRow]
    simp only [deleteKnownHost]
    rw [look_foldl_removeRow fun _ _ _ => deletedAt_removeRow ..]
    simp only [vault.mem_stalePins pin key]
  surroundings := surroundings_foldl_removeRow .knownHost _ vault now

theorem saves_saveConnection {vault saved : VaultStore} {host : Connection}
    {password : Option String} (done : vault.saveConnection host password = .ok saved)
    (now : Stamp) :
    vault.Saves (.connection host.stored
      { vault.secretsOf host.id with
        password := secretColumn password (vault.secretsOf host.id).password }) now saved := by
  unfold saveConnection at done
  split at done
  · cases done
  · cases done
    exact vault.saves_replaceRow _ now rfl

/-! ### Deletes -/

variable {gone : EntityKey}

theorem orphanedBy_of_ne (notHost : gone.1 ≠ .connection) (row : Row) :
    row.orphanedBy gone = false := by
  cases row <;> simp [Row.orphanedBy]
  rintro rfl
  exact notHost rfl

theorem filter_orphanedBy_of_ne (notHost : gone.1 ≠ .connection) (stored : Option Row) :
    (stored.filter fun row => !row.orphanedBy gone) = stored := by
  cases stored with
  | none => rfl
  | some row => rw [Option.filter_some, orphanedBy_of_ne notHost]; rfl

theorem any_orphanedBy_of_ne (notHost : gone.1 ≠ .connection) (stored : Option Row) :
    stored.any (Row.orphanedBy gone) = false := by
  cases stored with
  | none => rfl
  | some row => exact orphanedBy_of_ne notHost row

theorem clearReference_of_ne {type : EntityType} (different : gone.1 ≠ type)
    (reference : Option Uuid) : clearReference gone type reference = reference := by
  cases reference with
  | none => rfl
  | some id =>
    have other : ((type, id) != gone) = true := by
      rw [bne_iff_ne]
      rintro rfl
      exact different rfl
    rw [clearReference, Option.filter_some, other]
    rfl

/-- Only the deletion of an identity, a proxy identity or a login script clears a column. -/
theorem detach_of_ne (notIdentity : gone.1 ≠ .identity) (notProxyIdentity : gone.1 ≠ .proxyIdentity)
    (notLoginScript : gone.1 ≠ .loginScript) (row : Row) : row.detach gone = row := by
  cases row with
  | connection host secrets =>
    have kept : host.loginScriptId.map (Prod.mk .loginScript) ≠ some gone := by
      intro same
      obtain ⟨id, _, rfl⟩ := Option.map_eq_some_iff.mp same
      exact notLoginScript rfl
    simp only [Row.detach, Connection.detach, clearReference_of_ne notIdentity,
      clearReference_of_ne notProxyIdentity, clearReference_of_ne notLoginScript, if_neg kept]
  | _ => rfl

/-- Deleting an entity no other table refers to. -/
theorem deletes_removeRow (vault : VaultStore) (now : Stamp) (notHost : gone.1 ≠ .connection)
    (notIdentity : gone.1 ≠ .identity) (notProxyIdentity : gone.1 ≠ .proxyIdentity)
    (notLoginScript : gone.1 ≠ .loginScript) :
    vault.Deletes gone now (vault.removeRow gone now) where
  rowOf key := by
    have same : Row.detach gone = id :=
      funext (detach_of_ne notIdentity notProxyIdentity notLoginScript)
    rw [rowOf_removeRow, filter_orphanedBy_of_ne notHost, same, Option.map_id]
    rfl
  deletedAt key := by
    rw [deletedAt_removeRow, any_orphanedBy_of_ne notHost]
    simp
  surroundings := rfl

/-- Deleting an entity that hosts name in a column. -/
theorem deletes_detach_removeRow (vault : VaultStore) (now : Stamp) (notHost : gone.1 ≠ .connection) :
    vault.Deletes gone now ((vault.detach gone).removeRow gone now) where
  rowOf key := by
    rw [rowOf_removeRow, filter_orphanedBy_of_ne notHost]
    simp only [VaultStore.rowOf, detach, Table.get?_update]
  deletedAt key := by
    rw [deletedAt_removeRow, any_orphanedBy_of_ne notHost]
    simp only [Bool.false_eq_true, or_false]
    rfl
  surroundings := rfl

theorem mem_orphanRules (vault : VaultStore) (hostId : Uuid) (key : EntityKey) :
    (key.1 = .portForwardRule ∧ key.2 ∈ vault.orphanRules hostId) ↔
      (vault.rowOf key).any (Row.orphanedBy (.connection, hostId)) = true := by
  rw [Option.any_eq_true]
  constructor
  · rintro ⟨sameType, member⟩
    obtain ⟨rule, orphan, sameId⟩ := mem_map.mp member
    obtain ⟨listed, hosted⟩ := mem_filter.mp orphan
    rw [mem_listPortForwardRules] at listed
    have here : key = (.portForwardRule, rule.id) := Prod.ext sameType sameId.symm
    exact ⟨.portForwardRule rule, here ▸ listed, by simpa [Row.orphanedBy] using hosted⟩
  · rintro ⟨row, found, hosted⟩
    cases row with
    | portForwardRule rule =>
      have here : key = (.portForwardRule, rule.id) := (key_of_rowOf found).symm
      subst here
      exact ⟨rfl, mem_map.mpr ⟨rule, mem_filter.mpr
        ⟨(vault.mem_listPortForwardRules rule).mpr found, by simpa [Row.orphanedBy] using hosted⟩,
        rfl⟩⟩
    | _ => cases hosted

theorem deletes_deleteConnection (vault : VaultStore) (id : Uuid) (now : Stamp) :
    vault.Deletes (.connection, id) now (vault.deleteConnection id now) where
  rowOf key := by
    have same : Row.detach (.connection, id) = fun row => row :=
      funext (detach_of_ne (by simp) (by simp) (by simp))
    simp only [deleteConnection, deletePortForwardRule]
    rw [look_foldl_removeRow fun _ _ _ => rowOf_removeRow .., same, Option.map_id']
    simp only [mem_orphanRules, rowOf_removeRow]
    by_cases host : key = (.connection, id)
    · simp [host]
    · simp only [if_neg host]
      cases vault.rowOf key with
      | none => rfl
      | some row =>
        cases orphan : row.orphanedBy (.connection, id) <;> simp [orphan, Option.filter_some]
  deletedAt key := by
    simp only [deleteConnection, deletePortForwardRule]
    rw [look_foldl_removeRow fun _ _ _ => deletedAt_removeRow ..]
    simp only [mem_orphanRules, rowOf_removeRow, deletedAt_removeRow]
    by_cases host : key = (.connection, id)
    · simp [host]
    · simp [host]
  surroundings := surroundings_foldl_removeRow .portForwardRule _ _ now

theorem deletes_deleteGroup {vault deleted : VaultStore} {id : Uuid} {now : Stamp}
    (done : vault.deleteGroup id now = .ok deleted) :
    vault.Deletes (.group, id) now deleted := by
  unfold deleteGroup at done
  split at done
  · cases done
  · cases done
    exact vault.deletes_removeRow now (by simp) (by simp) (by simp) (by simp)

/-! ### What both descriptions imply -/

section Saves

variable {vault saved : VaultStore} {row : Row} {now : Stamp}

theorem Saves.rowOf_self (effect : vault.Saves row now saved) : saved.rowOf row.key = some row := by
  rw [effect.rowOf, if_pos rfl]

theorem Saves.deletedAt_self (effect : vault.Saves row now saved) :
    saved.deletedAt row.key = none := by
  rw [effect.deletedAt, if_pos rfl]

/-- Only pins stand in each other's way. -/
theorem displaces_of_key_ne {row other : Row} (different : other.key ≠ row.key)
    (notPin : other.entityType ≠ .knownHost) :
    Table.displaces Row.key Row.endpoint row other = false := by
  cases other <;> simp_all [Table.displaces, Row.endpoint, Row.entityType]

theorem endpoint_of_displaces {row other : Row}
    (displaced : Table.displaces Row.key Row.endpoint row other = true)
    (different : other.key ≠ row.key) : row.endpoint = other.endpoint := by
  cases row <;> cases other <;> simp_all [Table.displaces, Row.endpoint]

variable {key : EntityKey}

theorem Saves.rowOf_of_null (effect : vault.Saves row now saved) (null : row.endpoint = none)
    (different : key ≠ row.key) : saved.rowOf key = vault.rowOf key := by
  rw [effect.rowOf, if_neg different, filter_displaces_of_null null different]

theorem Saves.deletedAt_of_null (effect : vault.Saves row now saved) (null : row.endpoint = none)
    (different : key ≠ row.key) :
    saved.deletedAt key = vault.deletedAt key := by
  rw [effect.deletedAt, if_neg different, any_staleFor_of_null null]
  rfl

theorem Saves.rowOf_of_ne (effect : vault.Saves row now saved) (different : key ≠ row.key)
    (notPin : key.1 ≠ .knownHost) :
    saved.rowOf key = vault.rowOf key := by
  rw [effect.rowOf, if_neg different]
  cases found : vault.rowOf key with
  | none => rfl
  | some other =>
    have otherKey := key_of_rowOf found
    subst otherKey
    rw [Option.filter_some, displaces_of_key_ne different notPin]
    rfl

end Saves

theorem SameEntities.saves {vault other saved : VaultStore} {row : Row} {now : Stamp}
    (same : vault.SameEntities other) (effect : other.Saves row now saved) :
    vault.Saves row now saved where
  rowOf key := by rw [effect.rowOf, same.rowOf]
  deletedAt key := by rw [effect.deletedAt, same.rowOf, same.deletedAt]
  surroundings := effect.surroundings.trans same.surroundings

end VaultStore

end Oryxis

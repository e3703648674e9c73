/-
This file is the vault store as an import drives it: the statements it issues, one
script for each save, and what each does to the tables.

A text is sealed before it is stored, under the key the vault is unlocked with and
a nonce drawn for the place it goes to. A save of an entity keeps the secret columns
its argument does not name. Every save ends in an `INSERT OR REPLACE` and a statement
that clears the tombstone, and the engine may refuse the second after the first. A
save of a pin first deletes the other pins of the same hostname, port and key type,
with a tombstone for each.
-/

import Oryxis.Library.Scripts
import Oryxis.Portable.Entities
import Oryxis.Vault.GroupCycles

namespace Oryxis.Portable

open Library

inductive VaultError where
  | locked
  | invalidPassword
  | crypto (message : String)
  | database

/-! ### Sealed texts -/

inductive SecretColumn where
  | own
  | proxyPassword
  | totpSecret
  | targetPassword

/-- Where a sealed text is stored. -/
inductive Place where
  | column (key : EntityKey) (column : SecretColumn)
  | setting (key : String)

/-- The cipher of the fields, and the text encoding of what it makes of them. -/
structure FieldCipher (Key Nonce Sealed : Type) where
  encrypt : Key → Nonce → String → Sealed
  decrypt : Key → Sealed → Option String
  encodeBase64 : Sealed → String
  decodeBase64 : String → Option Sealed
  decrypt_encrypt : ∀ key nonce text, decrypt key (encrypt key nonce text) = some text
  decodeBase64_encodeBase64 : ∀ text, decodeBase64 (encodeBase64 text) = some text

/-- A cipher that writes its one-letter key and nonce in front of the text. -/
def FieldCipher.symbolic : FieldCipher Char Char String where
  encrypt key nonce text := String.ofList (key :: nonce :: text.toList)
  decrypt key text :=
    match text.toList with
    | first :: _ :: rest => if first = key then some (String.ofList rest) else none
    | _ => none
  encodeBase64 text := text
  decodeBase64 := some
  decrypt_encrypt key nonce text := by simp
  decodeBase64_encodeBase64 _ := rfl

/-- The key a vault is unlocked with, and the nonces it draws. -/
structure Keyring (Key Nonce Sealed : Type) where
  cipher : FieldCipher Key Nonce Sealed
  key : Key
  nonce : Place → Nonce

/-- A vault unlocked with a one-letter key. -/
def Keyring.symbolic (key : Char) : Keyring Char Char String where
  cipher := FieldCipher.symbolic
  key := key
  nonce _ := '0'

namespace Keyring

variable {Key Nonce Sealed : Type} (keyring : Keyring Key Nonce Sealed)

def encryptField (place : Place) (text : String) : Sealed :=
  keyring.cipher.encrypt keyring.key (keyring.nonce place) text

/-- The argument of the setters: nothing and an empty text clear the column. -/
def column (place : Place) (argument : Option String) : Option Sealed :=
  (argument.filter fun text => text != "").map (keyring.encryptField place)

/-- The tri-state argument of the `save_*` methods: nothing keeps the stored column. -/
def keptColumn (place : Place) (argument : Option String) (stored : Option Sealed) :
    Option Sealed :=
  match argument with
  | none => stored
  | some text => keyring.column place (some text)

end Keyring

/-! ### The store -/

structure Store (Sealed : Type) where
  rows : Table (fun row : Row Sealed => row.key) fun row => row.endpoint
  tombstones : Table Tombstone.entityKey Table.noIndex
  settings : Table Setting.key Table.noIndex
  customTerminalThemes : Table CustomTerminalTheme.id Table.noIndex
  /-- Whether the engine enforces `REFERENCES groups(id)`. -/
  foreignKeys : Bool

namespace Store

variable {Sealed : Type}

def empty (foreignKeys : Bool) : Store Sealed where
  rows := Table.empty
  tombstones := Table.empty
  settings := Table.empty
  customTerminalThemes := Table.empty
  foreignKeys := foreignKeys

def rowOf (store : Store Sealed) (key : EntityKey) : Option (Row Sealed) := store.rows.get? key

def entityOf (store : Store Sealed) (key : EntityKey) : Option Entity :=
  (store.rowOf key).map Row.entity

def deletedAt (store : Store Sealed) (key : EntityKey) : Option Stamp :=
  (store.tombstones.get? key).map Tombstone.deletedAt

def valueOf (store : Store Sealed) (key : String) : Option String :=
  (store.settings.get? key).map Setting.value

def secretsOf (store : Store Sealed) (key : EntityKey) : Secrets Sealed :=
  ((store.rowOf key).map Row.secrets).getD Secrets.unset

/-- The `list_*` methods. -/
def list {Model : Type} (kind : Kind Model) (store : Store Sealed) : List Model :=
  store.rows.rows.filterMap fun row => kind.unwrap row.entity

/-- Two stores that hold the same in every table. -/
structure SameTables (store other : Store Sealed) : Prop where
  rowOf : ∀ key, store.rowOf key = other.rowOf key
  deletedAt : ∀ key, store.deletedAt key = other.deletedAt key
  valueOf : ∀ key, store.valueOf key = other.valueOf key
  themes : ∀ id, store.customTerminalThemes.get? id = other.customTerminalThemes.get? id

theorem SameTables.refl (store : Store Sealed) : store.SameTables store :=
  ⟨fun _ => rfl, fun _ => rfl, fun _ => rfl, fun _ => rfl⟩

/-! ### Statements -/

/-- Whether storing an entity breaks `REFERENCES groups(id)`. -/
def missesGroup (store : Store Sealed) : Entity → Bool
  | .connection host =>
    match host.groupId with
    | none => false
    | some groupId => store.foreignKeys && (store.rowOf (.group, groupId)).isNone
  | _ => false

/-- `INSERT OR REPLACE`. -/
def insertOrReplace (store : Store Sealed) (row : Row Sealed) : Except VaultError (Store Sealed) :=
  if store.missesGroup row.entity then .error .database
  else .ok { store with rows := store.rows.insertOrReplace row }

def clearTombstone (store : Store Sealed) (key : EntityKey) : Store Sealed :=
  { store with
    tombstones := store.tombstones.deleteWhere fun tombstone => tombstone.entityKey = key }

def recordTombstone (store : Store Sealed) (key : EntityKey) (now : Stamp) : Store Sealed :=
  { store with tombstones := store.tombstones.insertOrReplace ⟨key, now⟩ }

def deleteRow (store : Store Sealed) (key : EntityKey) : Store Sealed :=
  { store with rows := store.rows.deleteWhere fun row => row.key = key }

theorem key_updateSecrets (key : EntityKey) (change : Secrets Sealed → Secrets Sealed)
    (row : Row Sealed) : (if row.key = key then row.withSecrets change else row).key = row.key := by
  split <;> simp [Row.key]

theorem endpoint_updateSecrets (key : EntityKey) (change : Secrets Sealed → Secrets Sealed)
    (row : Row Sealed) :
    (if row.key = key then row.withSecrets change else row).endpoint = row.endpoint := by
  split <;> simp [Row.endpoint]

/-- `UPDATE ... WHERE id = id`, on the secret columns. -/
def updateSecrets (store : Store Sealed) (key : EntityKey)
    (change : Secrets Sealed → Secrets Sealed) : Store Sealed :=
  { store with
    rows := store.rows.update (fun row => if row.key = key then row.withSecrets change else row)
      (key_updateSecrets key change) (endpoint_updateSecrets key change) }

def putSetting (store : Store Sealed) (setting : Setting) : Store Sealed :=
  { store with settings := store.settings.insertOrReplace setting }

def putTheme (store : Store Sealed) (theme : CustomTerminalTheme) : Store Sealed :=
  { store with customTerminalThemes := store.customTerminalThemes.insertOrReplace theme }

/-! ### Saves -/

/-- The row a save writes: the columns it does not name are carried over. -/
def savedRow (store : Store Sealed) (entity : Entity) (own : Option Sealed → Option Sealed) :
    Row Sealed :=
  Row.of entity { store.secretsOf entity.key with own := own (store.secretsOf entity.key).own }

/-- What the `save_*` methods have in common. -/
def save (entity : Entity) (own : Option Sealed → Option Sealed) :
    Script (Store Sealed) VaultError PUnit := do
  Script.write fun store => store.insertOrReplace (store.savedRow entity own)
  Script.alter fun store => store.clearTombstone entity.key

/-- The kinds without a secret column. -/
def saveEntity (entity : Entity) : Script (Store Sealed) VaultError PUnit :=
  save entity fun _ => none

def saveGroup (group : Group) : Script (Store Sealed) VaultError PUnit :=
  saveEntity (.group group)

def saveSessionGroup (sessionGroup : SessionGroup) : Script (Store Sealed) VaultError PUnit :=
  saveEntity (.sessionGroup sessionGroup)

def saveSnippet (snippet : Snippet) : Script (Store Sealed) VaultError PUnit :=
  saveEntity (.snippet snippet)

def savePortForwardRule (rule : PortForwardRule) : Script (Store Sealed) VaultError PUnit :=
  saveEntity (.portForwardRule rule)

def saveLoginScript (script : LoginScript) : Script (Store Sealed) VaultError PUnit :=
  saveEntity (.loginScript script)

/-- The other pins of the same hostname, port and key type. -/
def stalePins (store : Store Sealed) (pin : KnownHost) : List Uuid :=
  ((store.list Kind.knownHosts).filter fun other =>
    other.hostname = pin.hostname && other.port = pin.port && other.keyType = pin.keyType &&
      other.id != pin.id).map KnownHost.id

def deleteKnownHost (now : Uuid → Stamp) (id : Uuid) :
    Script (Store Sealed) VaultError PUnit := do
  Script.alter fun store => store.deleteRow (.knownHost, id)
  Script.alter fun store => store.recordTombstone (.knownHost, id) (now id)

/-- `now` is what the clock says when a pin goes. -/
def saveKnownHost (now : Uuid → Stamp) (pin : KnownHost) :
    Script (Store Sealed) VaultError PUnit := do
  let stale ← Script.select fun store => store.stalePins pin
  stale.forM (deleteKnownHost now)
  saveEntity (.knownHost pin)

def setSetting (key value : String) : Script (Store Sealed) VaultError PUnit :=
  Script.alter fun store => store.putSetting ⟨key, value⟩

def saveCustomTerminalTheme (theme : CustomTerminalTheme) :
    Script (Store Sealed) VaultError PUnit :=
  Script.alter fun store => store.putTheme theme

section Secret

variable {Key Nonce : Type} (keyring : Keyring Key Nonce Sealed)

/-- The kinds with a secret column. -/
def saveWithSecret (entity : Entity) (argument : Option String) :
    Script (Store Sealed) VaultError PUnit :=
  save entity (keyring.keptColumn (.column entity.key .own) argument)

def saveKey (key : SshKey) (privateKey : Option String) :
    Script (Store Sealed) VaultError PUnit :=
  saveWithSecret keyring (.sshKey key) privateKey

def saveIdentity (identity : Identity) (password : Option String) :
    Script (Store Sealed) VaultError PUnit :=
  saveWithSecret keyring (.identity identity) password

def saveProxyIdentity (proxyIdentity : ProxyIdentity) (password : Option String) :
    Script (Store Sealed) VaultError PUnit :=
  saveWithSecret keyring (.proxyIdentity proxyIdentity) password

def saveCloudProfile (profile : CloudProfile) (secret : Option String) :
    Script (Store Sealed) VaultError PUnit :=
  saveWithSecret keyring (.cloudProfile profile) secret

def saveConnection (host : Connection) (password : Option String) :
    Script (Store Sealed) VaultError PUnit :=
  saveWithSecret keyring (.connection host) password

def setProxyPassword (id : Uuid) (password : Option String) :
    Script (Store Sealed) VaultError PUnit :=
  Script.alter fun store => store.updateSecrets (.connection, id) fun secrets =>
    { secrets with
      proxyPassword := keyring.column (.column (.connection, id) .proxyPassword) password }

def setConnectionTotpSecret (id : Uuid) (secret : Option String) :
    Script (Store Sealed) VaultError PUnit :=
  Script.alter fun store => store.updateSecrets (.connection, id) fun secrets =>
    { secrets with
      totpSecret := keyring.column (.column (.connection, id) .totpSecret) secret }

def setConnectionTargetPassword (id : Uuid) (password : Option String) :
    Script (Store Sealed) VaultError PUnit :=
  Script.alter fun store => store.updateSecrets (.connection, id) fun secrets =>
    { secrets with
      targetPassword := keyring.column (.column (.connection, id) .targetPassword) password }

def aiApiKey : String := "ai_api_key"

/-- What `set_ai_api_key` writes into the settings. -/
def sealedApiKey (value : String) : String :=
  keyring.cipher.encodeBase64 (keyring.encryptField (.setting aiApiKey) value)

def setAiApiKey (value : String) : Script (Store Sealed) VaultError PUnit :=
  setSetting aiApiKey (sealedApiKey keyring value)

end Secret

/-! ### What is stored under a key -/

variable (store : Store Sealed)

theorem key_of_rowOf {store : Store Sealed} {key : EntityKey} {row : Row Sealed}
    (found : store.rowOf key = some row) : row.key = key :=
  Table.key_of_get? found

variable {entity : Entity}

theorem key_of_entityOf {store : Store Sealed} {key : EntityKey}
    (found : store.entityOf key = some entity) : entity.key = key := by
  obtain ⟨row, stored, rfl⟩ := Option.map_eq_some_iff.mp found
  exact key_of_rowOf stored

theorem isSome_entityOf (key : EntityKey) :
    (store.entityOf key).isSome = (store.rowOf key).isSome := Option.isSome_map

section List

variable {Model : Type} (kind : Kind Model)

theorem mem_list (model : Model) :
    model ∈ store.list kind ↔ store.entityOf (kind.key model) = some (kind.wrap model) := by
  rw [list, List.mem_filterMap, entityOf, Option.map_eq_some_iff]
  constructor
  · rintro ⟨row, member, unwrapped⟩
    have wrapped := kind.unwrap_eq_some.mp unwrapped
    have sameKey : row.key = kind.key model := congrArg Entity.key wrapped
    exact ⟨row, sameKey ▸ Table.get?_of_mem member, wrapped⟩
  · rintro ⟨row, found, wrapped⟩
    exact ⟨row, Table.mem_of_get? found, kind.unwrap_eq_some.mpr wrapped⟩

/-- What is stored under a key of the kind is listed. -/
theorem exists_mem_list {key : EntityKey} (sameType : key.1 = kind.type) {entity : Entity}
    (found : store.entityOf key = some entity) :
    ∃ model ∈ store.list kind, entity = kind.wrap model := by
  have sameKey := key_of_entityOf found
  obtain ⟨model, rfl⟩ := kind.exists_wrap ((congrArg Prod.fst sameKey).trans sameType)
  exact ⟨model, (store.mem_list kind model).mpr (by rw [Kind.key, sameKey, found]), rfl⟩

variable {idOf : Model → Uuid}

/-- Looking an entity up in the list of its kind. -/
theorem find?_list (same : ∀ model, (kind.wrap model).id = idOf model) (id : Uuid) :
    ((store.list kind).find? fun own => decide (idOf own = id)) =
      (store.entityOf (kind.type, id)).bind kind.unwrap := by
  have sameKey : ∀ model, kind.key model = (kind.type, idOf model) := fun model =>
    Prod.ext (kind.entityType_wrap model) (same model)
  apply Option.ext
  intro model
  rw [Option.bind_eq_some_iff]
  constructor
  · intro found
    have stored := (store.mem_list kind model).mp (List.mem_of_find?_eq_some found)
    have sameId : idOf model = id := by simpa using List.find?_some found
    rw [sameKey, sameId] at stored
    exact ⟨_, stored, kind.unwrap_wrap model⟩
  · rintro ⟨entity, stored, unwrapped⟩
    rw [kind.unwrap_eq_some.mp unwrapped] at stored
    have keys := (sameKey model).symm.trans (key_of_entityOf stored)
    have sameId : idOf model = id := congrArg Prod.snd keys
    cases found : (store.list kind).find? fun own => decide (idOf own = id) with
    | none =>
      rw [← keys, ← sameKey] at stored
      have member := (store.mem_list kind model).mpr stored
      have absent := List.find?_eq_none.mp found model member
      simp [sameId] at absent
    | some other =>
      have otherStored := (store.mem_list kind other).mp (List.mem_of_find?_eq_some found)
      have otherId : idOf other = id := by simpa using List.find?_some found
      rw [sameKey, otherId, stored, Option.some.injEq] at otherStored
      exact congrArg some (kind.wrap_injective otherStored.symm)

theorem any_list (same : ∀ model, (kind.wrap model).id = idOf model) (id : Uuid) :
    ((store.list kind).any fun own => decide (idOf own = id)) =
      (store.rowOf (kind.type, id)).isSome := by
  rw [← List.isSome_find?, find?_list store kind same, ← isSome_entityOf]
  cases found : store.entityOf (kind.type, id) with
  | none => rfl
  | some entity =>
    obtain ⟨model, _, rfl⟩ := store.exists_mem_list kind rfl found
    rw [Option.bind_some, kind.unwrap_wrap]
    rfl

theorem stamp_list {stampOf : Model → Stamp} (same : ∀ model, (kind.wrap model).id = idOf model)
    (sameStamp : ∀ model, (kind.wrap model).updatedAt = stampOf model) (id : Uuid) :
    ((store.list kind).find? fun own => decide (idOf own = id)).map stampOf =
      (store.entityOf (kind.type, id)).map Entity.updatedAt := by
  rw [find?_list store kind same]
  cases found : store.entityOf (kind.type, id) with
  | none => rfl
  | some entity =>
    obtain ⟨model, _, rfl⟩ := store.exists_mem_list kind rfl found
    rw [Option.bind_some, kind.unwrap_wrap]
    exact congrArg some (sameStamp model).symm

end List

/-! ### The group tree -/

/-- The stored parent relation. -/
def parentOf (id : Uuid) : Option Uuid :=
  ((store.entityOf (.group, id)).bind Kind.groups.unwrap).bind fun group => group.parentId

theorem parentIn_list :
    Oryxis.Group.parentIn ((store.list Kind.groups).map Group.toGroup) = store.parentOf := by
  funext id
  have found : ((store.list Kind.groups).find? fun own => decide (own.id = id)) =
      (store.entityOf (.group, id)).bind Kind.groups.unwrap :=
    store.find?_list Kind.groups (fun _ => rfl) id
  rw [Oryxis.Group.parentIn, Oryxis.Group.withId, List.find?_map, parentOf, ← found]
  exact Option.bind_map

/-! ### What a statement does -/

theorem valueOf_putSetting (setting : Setting) (key : String) :
    (store.putSetting setting).valueOf key =
      if key = setting.key then some setting.value else store.valueOf key := by
  simp only [valueOf, putSetting]
  rw [Table.get?_insertOrReplace_of_null _ _ _ rfl]
  split <;> rfl

theorem get?_putTheme (theme : CustomTerminalTheme) (id : Uuid) :
    (store.putTheme theme).customTerminalThemes.get? id =
      if id = theme.id then some theme else store.customTerminalThemes.get? id :=
  Table.get?_insertOrReplace_of_null _ _ _ rfl

/-! ### What a save does -/

theorem missesGroup_stored (entity : Entity) :
    store.missesGroup entity.stored = store.missesGroup entity := by
  cases entity <;> rfl

theorem missesGroup_eq_false {store : Store Sealed}
    (grouped : ∀ host, entity = .connection host → ∀ id, host.groupId = some id →
      (store.rowOf (.group, id)).isSome) : store.missesGroup entity = false := by
  cases entity with
  | connection host =>
    cases named : host.groupId with
    | none => simp only [missesGroup, named]
    | some id =>
      have there := grouped host rfl id named
      rw [Option.isSome_iff_ne_none, ne_eq, ← Option.isNone_iff_eq_none] at there
      simp only [missesGroup, named, Bool.not_eq_true _ ▸ there, Bool.and_false]
  | _ => rfl

theorem missesGroup_of_ne (store : Store Sealed) (notHost : entity.entityType ≠ .connection) :
    store.missesGroup entity = false := by
  refine missesGroup_eq_false fun host same => ?_
  subst same
  exact absurd rfl notHost

@[simp] theorem entity_savedRow (entity : Entity) (own : Option Sealed → Option Sealed) :
    (store.savedRow entity own).entity = entity.stored := rfl

@[simp] theorem key_savedRow (entity : Entity) (own : Option Sealed → Option Sealed) :
    (store.savedRow entity own).key = entity.key := entity.key_stored

/-- Where a save is stopped: before it has written anything, or after it has stored the row. -/
theorem stops_save {store : Store Sealed} (own : Option Sealed → Option Sealed)
    (grouped : store.missesGroup entity = false) :
    (save entity own).stops store =
      [store, { store with rows := store.rows.insertOrReplace (store.savedRow entity own) }] := by
  have inserted : store.insertOrReplace (store.savedRow entity own) =
      .ok { store with rows := store.rows.insertOrReplace (store.savedRow entity own) } := by
    rw [insertOrReplace, entity_savedRow, missesGroup_stored, grouped]
    rfl
  rw [save, Script.stops_bind_of_ok _ (Script.carryOut_write_of_ok inserted), Script.stops_write,
    Script.stops_alter]
  rfl

end Store

end Oryxis.Portable

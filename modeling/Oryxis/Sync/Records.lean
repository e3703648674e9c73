/-
This file is what travels between two devices: the manifest a vault announces,
the records it hands out, and the wire form of a row.

A row loses two things on the way out. The trust decisions and the recency of a
host are facts about the device and stay behind, and the secret columns leave only
when the setting `sync_passwords` says so, each as a value with a `cleared` flag,
so that the receiver can tell a removed secret from a withheld one. A private key
has no such flag: its absence always means that the receiver keeps its own.

The payload is serialised and sealed by code outside this repository. `Codec` is
what the sync engine relies on there: unsealing undoes sealing under the same
shared secret, and deserialising undoes serialising.
-/

import Oryxis.Vault.Operations

namespace Oryxis

open List

abbrev SharedSecret := String

structure ManifestEntry where
  entityType : EntityType
  entityId : Uuid
  updatedAt : Stamp
  isDeleted : Bool

def ManifestEntry.key (entry : ManifestEntry) : EntityKey := (entry.entityType, entry.entityId)

structure SyncRecord (Bytes : Type) where
  entityType : EntityType
  entityId : Uuid
  updatedAt : Stamp
  isDeleted : Bool
  payload : Bytes

def SyncRecord.key {Bytes : Type} (record : SyncRecord Bytes) : EntityKey :=
  (record.entityType, record.entityId)

/-- The header of a record, as a manifest would announce it. -/
def SyncRecord.entry {Bytes : Type} (record : SyncRecord Bytes) : ManifestEntry :=
  ⟨record.entityType, record.entityId, record.updatedAt, record.isDeleted⟩

inductive SyncError where
  | crypto (message : String)

/-! ### Payloads -/

/-- A secret on the wire: its value and its `*_cleared` companion. -/
structure WireSecret where
  value : Option String
  cleared : Bool

inductive SyncPayload where
  | connection (host : Connection)
      (password proxyPassword totpSecret targetPassword : WireSecret)
  | sshKey (key : SshKey) (privateKey : Option String)
  | identity (identity : Identity) (password : WireSecret)
  | group (group : Group)
  | snippet (snippet : Snippet)
  | knownHost (pin : KnownHost)
  | proxyIdentity (proxyIdentity : ProxyIdentity) (password : WireSecret)
  | cloudProfile (profile : CloudProfile) (secret : WireSecret)
  | portForwardRule (rule : PortForwardRule)
  | sessionGroup (sessionGroup : SessionGroup)
  | loginScript (script : LoginScript)

namespace SyncPayload

def entityType : SyncPayload → EntityType
  | .connection .. => .connection
  | .sshKey .. => .sshKey
  | .identity .. => .identity
  | .group .. => .group
  | .snippet .. => .snippet
  | .knownHost .. => .knownHost
  | .proxyIdentity .. => .proxyIdentity
  | .cloudProfile .. => .cloudProfile
  | .portForwardRule .. => .portForwardRule
  | .sessionGroup .. => .sessionGroup
  | .loginScript .. => .loginScript

def id : SyncPayload → Uuid
  | .connection entity .. => entity.id
  | .sshKey entity _ => entity.id
  | .identity entity _ => entity.id
  | .group entity => entity.id
  | .snippet entity => entity.id
  | .knownHost entity => entity.id
  | .proxyIdentity entity _ => entity.id
  | .cloudProfile entity _ => entity.id
  | .portForwardRule entity => entity.id
  | .sessionGroup entity => entity.id
  | .loginScript entity => entity.id

def updatedAt : SyncPayload → Stamp
  | .connection entity .. => entity.updatedAt
  | .sshKey entity _ => entity.updatedAt
  | .identity entity _ => entity.updatedAt
  | .group entity => entity.updatedAt
  | .snippet entity => entity.updatedAt
  | .knownHost entity => entity.updatedAt
  | .proxyIdentity entity _ => entity.updatedAt
  | .cloudProfile entity _ => entity.updatedAt
  | .portForwardRule entity => entity.updatedAt
  | .sessionGroup entity => entity.updatedAt
  | .loginScript entity => entity.updatedAt

def key (payload : SyncPayload) : EntityKey := (payload.entityType, payload.id)

end SyncPayload

/-- Serialisation and authenticated encryption of payloads, as the sync engine relies on them. -/
structure Codec (Bytes : Type) where
  encrypt : SharedSecret → Bytes → Bytes
  decrypt : SharedSecret → Bytes → Option Bytes
  toVec : SyncPayload → Bytes
  fromSlice : EntityType → Bytes → Option SyncPayload
  noBytes : Bytes
  decrypt_encrypt : ∀ secret plain, decrypt secret (encrypt secret plain) = some plain
  fromSlice_toVec : ∀ payload, fromSlice payload.entityType (toVec payload) = some payload
  fromSlice_entityType : ∀ {type bytes payload},
    fromSlice type bytes = some payload → payload.entityType = type

/-- Bytes as terms: what was serialised, and under which secret it was sealed. -/
inductive WireTerm where
  | nothing
  | json (payload : SyncPayload)
  | sealed (secret : SharedSecret) (plain : WireTerm)

/-- The codec of an ideal cipher: only what was sealed under a secret opens under it. -/
def Codec.symbolic : Codec WireTerm where
  encrypt := .sealed
  decrypt secret
    | .sealed key plain => if key = secret then some plain else none
    | _ => none
  toVec := .json
  fromSlice type
    | .json payload => if payload.entityType = type then some payload else none
    | _ => none
  noBytes := .nothing
  decrypt_encrypt secret plain := if_pos rfl
  fromSlice_toVec payload := if_pos rfl
  fromSlice_entityType {type bytes payload} found := by
    cases bytes with
    | json sent =>
      simp only at found
      split at found
      · cases found
        assumption
      · cases found
    | _ => cases found

/-! ### What leaves the device -/

/-- The trust decision of a host stays on the device, and options that then say nothing go. -/
def Connection.stripLocalTrust (host : Connection) : Connection :=
  { host with
    telnet := (host.telnet.map fun options => { options with tlsInsecure := false }).filter
      fun options => !options.isDefault }

/-- A secret as it is sent: an absent one is flagged, unless nothing is shared at all. -/
def WireSecret.sent (syncPasswords : Bool) (stored : Option String) : WireSecret :=
  if syncPasswords then ⟨stored, stored.isNone⟩ else ⟨none, false⟩

/-- The wire form of a stored row. -/
def Row.toPayload (syncPasswords : Bool) : Row → SyncPayload
  | .connection host secrets =>
    .connection { host.stripLocalTrust with lastUsed := none }
      (.sent syncPasswords secrets.password) (.sent syncPasswords secrets.proxyPassword)
      (.sent syncPasswords secrets.totpSecret) (.sent syncPasswords secrets.targetPassword)
  | .sshKey entity privateKey => .sshKey entity (if syncPasswords then privateKey else none)
  | .identity entity password => .identity entity (.sent syncPasswords password)
  | .group entity => .group entity
  | .snippet entity => .snippet entity
  | .knownHost entity => .knownHost entity
  | .proxyIdentity entity password => .proxyIdentity entity (.sent syncPasswords password)
  | .cloudProfile entity secret => .cloudProfile entity (.sent syncPasswords secret)
  | .portForwardRule entity => .portForwardRule entity
  | .sessionGroup entity => .sessionGroup entity
  | .loginScript entity => .loginScript entity

@[simp] theorem Row.key_toPayload (syncPasswords : Bool) (row : Row) :
    (row.toPayload syncPasswords).key = row.key := by
  cases row <;> rfl

@[simp] theorem Row.updatedAt_toPayload (syncPasswords : Bool) (row : Row) :
    (row.toPayload syncPasswords).updatedAt = row.updatedAt := by
  cases row <;> rfl

namespace VaultStore

/-! ### The manifest -/

/-- The synced tables, in manifest order. -/
def stampTables : List EntityType :=
  [.connection, .sshKey, .identity, .proxyIdentity, .group, .snippet, .portForwardRule,
    .knownHost, .cloudProfile, .sessionGroup, .loginScript]

def listEntityStamps (vault : VaultStore) (type : EntityType) : List (Uuid × Stamp) :=
  (vault.rows.rows.filter fun row => row.entityType = type).map fun row => (row.id, row.updatedAt)

def liveEntries (vault : VaultStore) : List ManifestEntry :=
  stampTables.flatMap fun type =>
    (vault.listEntityStamps type).map fun (id, updatedAt) => ⟨type, id, updatedAt, false⟩

/-- What a vault announces: its live rows, and the tombstones of what is not live. -/
def buildManifest (vault : VaultStore) : List ManifestEntry :=
  vault.liveEntries ++
    (vault.tombstones.rows.filter fun tombstone =>
      !(vault.liveEntries.map ManifestEntry.key).contains tombstone.entityKey).map
      fun tombstone =>
        ⟨tombstone.entityKey.1, tombstone.entityKey.2, tombstone.deletedAt, true⟩

/-- The stamp a vault holds for an entity: the live row's, else the tombstone's. -/
def localStamps (vault : VaultStore) (key : EntityKey) : Option Stamp :=
  ((vault.rowOf key).map Row.updatedAt).or (vault.deletedAt key)

/-! ### The records a vault hands out -/

variable {Bytes : Type}

/-- The record of one requested reference: a deletion where there is a tombstone, else the
sealed payload of the row, and nothing where there is neither. -/
def collectRecord (codec : Codec Bytes) (secret : SharedSecret) (now : Stamp)
    (vault : VaultStore) (needed : EntityKey) : Option (SyncRecord Bytes) :=
  match vault.deletedAt needed with
  | some deletedAt => some ⟨needed.1, needed.2, deletedAt, true, codec.noBytes⟩
  | none =>
    (vault.rowOf needed).map fun row =>
      ⟨needed.1, needed.2, (vault.localStamps needed).getD now, false,
        codec.encrypt secret (codec.toVec (row.toPayload vault.syncPasswords))⟩

def collectRecords (codec : Codec Bytes) (vault : VaultStore) (needed : List EntityKey)
    (sharedSecret : Option SharedSecret) (now : Stamp) :
    Except SyncError (List (SyncRecord Bytes)) :=
  match sharedSecret with
  | none => .error (.crypto "peer has no shared secret; refusing to send plaintext")
  | some secret => .ok (needed.filterMap (vault.collectRecord codec secret now))

/-! ### What is announced and what is handed out, entity by entity -/

/-- What a vault announces of one entity. -/
def manifestEntry (vault : VaultStore) (key : EntityKey) : Option ManifestEntry :=
  match vault.rowOf key with
  | some row => some ⟨key.1, key.2, row.updatedAt, false⟩
  | none => (vault.deletedAt key).map fun deletedAt => ⟨key.1, key.2, deletedAt, true⟩

theorem mem_liveEntries (vault : VaultStore) (entry : ManifestEntry) :
    entry ∈ vault.liveEntries ↔
      ∃ row, vault.rowOf entry.key = some row ∧ entry.updatedAt = row.updatedAt ∧
        entry.isDeleted = false := by
  have allTypes : ∀ type : EntityType, type ∈ stampTables := by
    intro type
    cases type <;> decide
  simp only [liveEntries, listEntityStamps, mem_flatMap, mem_map, mem_filter,
    decide_eq_true_eq]
  constructor
  · rintro ⟨type, _, _, ⟨row, ⟨member, rfl⟩, rfl⟩, rfl⟩
    exact ⟨row, rowOf_of_mem member, rfl, rfl⟩
  · rintro ⟨row, found, stamp, live⟩
    have rowKey := key_of_rowOf found
    refine ⟨entry.entityType, allTypes _, _, ⟨row, ⟨Library.Table.mem_of_get? found, ?_⟩, rfl⟩, ?_⟩
    · exact congrArg Prod.fst rowKey
    · have sameId : row.id = entry.entityId := congrArg Prod.snd rowKey
      cases entry
      simp_all

theorem mem_buildManifest (vault : VaultStore) (entry : ManifestEntry) :
    entry ∈ vault.buildManifest ↔ vault.manifestEntry entry.key = some entry := by
  have isLive : ∀ key : EntityKey,
      (vault.liveEntries.map ManifestEntry.key).contains key = true ↔ vault.rowOf key ≠ none := by
    intro key
    rw [contains_iff_mem, mem_map]
    constructor
    · rintro ⟨live, member, rfl⟩
      obtain ⟨row, found, _⟩ := (vault.mem_liveEntries live).mp member
      simp [found]
    · intro stored
      obtain ⟨row, found⟩ := Option.ne_none_iff_exists'.mp stored
      exact ⟨⟨key.1, key.2, row.updatedAt, false⟩,
        (vault.mem_liveEntries _).mpr ⟨row, found, rfl, rfl⟩, rfl⟩
  unfold buildManifest manifestEntry
  rw [mem_append, mem_liveEntries, mem_map]
  constructor
  · rintro (⟨row, found, stamp, live⟩ | ⟨tombstone, member, rfl⟩)
    · rw [found]
      cases entry
      simp_all [ManifestEntry.key]
    · obtain ⟨stored, notLive⟩ := mem_filter.mp member
      have noRow : vault.rowOf tombstone.entityKey = none := by
        by_contra present
        rw [(isLive _).mpr present] at notLive
        cases notLive
      simp [ManifestEntry.key, noRow, deletedAt, Library.Table.get?_of_mem stored]
  · intro announced
    cases found : vault.rowOf entry.key with
    | some row =>
      rw [found] at announced
      have same := Option.some.inj announced
      exact .inl ⟨row, rfl, by rw [← same], by rw [← same]⟩
    | none =>
      rw [found] at announced
      obtain ⟨stamp, tombstoned, same⟩ := Option.map_eq_some_iff.mp announced
      obtain ⟨tombstone, stored, rfl⟩ := Option.map_eq_some_iff.mp tombstoned
      have sameKey : tombstone.entityKey = entry.key := Library.Table.key_of_get? stored
      refine .inr ⟨tombstone, mem_filter.mpr ⟨Library.Table.mem_of_get? stored, ?_⟩, ?_⟩
      · rw [Bool.not_eq_true', Bool.eq_false_iff, Ne, isLive, sameKey]
        exact fun present => present found
      · rw [sameKey]
        exact same

theorem key_of_manifestEntry {vault : VaultStore} {key : EntityKey} {entry : ManifestEntry}
    (announced : vault.manifestEntry key = some entry) : entry.key = key := by
  unfold manifestEntry at announced
  split at announced
  · cases announced
    rfl
  · obtain ⟨stamp, _, rfl⟩ := Option.map_eq_some_iff.mp announced
    rfl

theorem find?_buildManifest (vault : VaultStore) (key : EntityKey) :
    (vault.buildManifest.find? fun entry => entry.key = key) = vault.manifestEntry key := by
  cases found : vault.buildManifest.find? fun entry => decide (entry.key = key) with
  | some entry =>
    have sameKey : entry.key = key := by simpa using find?_some found
    rw [← sameKey]
    exact ((vault.mem_buildManifest entry).mp (mem_of_find?_eq_some found)).symm
  | none =>
    cases announced : vault.manifestEntry key with
    | none => rfl
    | some entry =>
      have sameKey := key_of_manifestEntry announced
      have member := (vault.mem_buildManifest entry).mpr (sameKey.symm ▸ announced)
      have absent := find?_eq_none.mp found entry member
      simp [sameKey] at absent

end VaultStore

end Oryxis

/-
This file is about the batches a session really carries: records a vault has
collected, at most one for an entity, each with a header that says what its
payload says.

Of such a batch a vault sees two kinds of turns for any one entity. In its own
turn the entity is taken over or deleted. In the turn of another entity it is a
bystander: almost always nothing happens to it, but a deleted entity is cleared
from the rows that refer to it, a deleted host takes its rules along, and a pin
pushes out the pins it collides with. A batch is followed through by naming what
holds of an entity before its own turn and what holds after it.
-/

import Oryxis.Sync.GroupRepair
import Oryxis.Sync.Session
import Oryxis.Sync.Turns

namespace Oryxis

open Library List

/-! ### One entry for an entity -/

namespace VaultStore

theorem nodup_keys_liveEntries (vault : VaultStore) :
    (vault.liveEntries.map ManifestEntry.key).Nodup := by
  have entryKey : ∀ type : EntityType,
      ((vault.listEntityStamps type).map fun stamp => (type, stamp.1)) =
        (vault.rows.rows.filter fun row => row.entityType = type).map Row.key := by
    intro type
    simp only [listEntityStamps, map_map]
    refine map_congr_left fun row member => ?_
    have sameType : row.entityType = type := by simpa using (mem_filter.mp member).2
    rw [← sameType]
    rfl
  rw [liveEntries, map_flatMap, nodup_flatMap]
  constructor
  · intro type _
    rw [map_map]
    change ((vault.listEntityStamps type).map fun stamp => (type, stamp.1)).Nodup
    rw [entryKey]
    exact vault.rows.distinct.sublist (filter_sublist.map Row.key)
  · have distinctTypes : stampTables.Pairwise (· ≠ ·) := by decide
    refine distinctTypes.imp fun {type other} different => ?_
    change List.Disjoint (List.map _ (List.map _ _)) (List.map _ (List.map _ _))
    rw [map_map, map_map]
    change List.Disjoint ((vault.listEntityStamps type).map fun stamp => (type, stamp.1))
      ((vault.listEntityStamps other).map fun stamp => (other, stamp.1))
    rw [entryKey, entryKey]
    intro key member otherMember
    obtain ⟨row, isRow, rfl⟩ := mem_map.mp member
    obtain ⟨otherRow, isOther, same⟩ := mem_map.mp otherMember
    have rowType : row.entityType = type := by simpa using (mem_filter.mp isRow).2
    have otherType : otherRow.entityType = other := by simpa using (mem_filter.mp isOther).2
    exact different (rowType.symm.trans ((congrArg Prod.fst same).symm.trans otherType))

theorem nodup_keys_buildManifest (vault : VaultStore) :
    (vault.buildManifest.map ManifestEntry.key).Nodup := by
  rw [buildManifest, map_append, nodup_append']
  refine ⟨vault.nodup_keys_liveEntries, ?_, ?_⟩
  · rw [map_map]
    exact vault.tombstones.distinct.sublist (filter_sublist.map Tombstone.entityKey)
  · intro key live tombstoned
    rw [map_map] at tombstoned
    obtain ⟨tombstone, member, rfl⟩ := mem_map.mp tombstoned
    have notLive := (mem_filter.mp member).2
    rw [Bool.not_eq_true', Bool.eq_false_iff, Ne, contains_iff_mem] at notLive
    exact notLive live

theorem nodup_neededFromRemote (vault other : VaultStore) :
    (neededFromRemote vault.buildManifest other.buildManifest).Nodup :=
  other.nodup_keys_buildManifest.sublist (filter_sublist.map ManifestEntry.key)

theorem nodup_toPushToRemote (vault other : VaultStore) :
    (toPushToRemote vault.buildManifest other.buildManifest).Nodup := by
  unfold toPushToRemote
  rw [nodup_append']
  refine ⟨other.nodup_keys_buildManifest.sublist (filter_sublist.map ManifestEntry.key),
    vault.nodup_keys_buildManifest.sublist (filter_sublist.map ManifestEntry.key), ?_⟩
  intro key announced unknown
  obtain ⟨entry, member, rfl⟩ := mem_map.mp announced
  obtain ⟨localEntry, localMember, same⟩ := mem_map.mp unknown
  have notThere := (mem_filter.mp localMember).2
  rw [Bool.not_eq_true', Bool.eq_false_iff, Ne, contains_iff_mem, same] at notThere
  exact notThere (mem_map_of_mem (mem_filter.mp member).1)

end VaultStore

/-! ### Records a vault has collected -/

variable {Bytes : Type} {codec : Codec Bytes} {secret : SharedSecret}

/-- What a live record carries bears its header's key and stamp. -/
def SyncRecord.Consistent (codec : Codec Bytes) (secret : SharedSecret)
    (record : SyncRecord Bytes) : Prop :=
  record.isDeleted = false → ∀ payload, codec.openPayload secret record = some payload →
    payload.key = record.key ∧ payload.updatedAt = record.updatedAt

theorem openPayload_sealed (record : SyncRecord Bytes) (payload : SyncPayload)
    (sameType : payload.entityType = record.entityType)
    (isSealed : record.payload = codec.encrypt secret (codec.toVec payload)) :
    codec.openPayload secret record = some payload := by
  rw [Codec.openPayload, isSealed, codec.decrypt_encrypt, Option.bind_some, ← sameType,
    codec.fromSlice_toVec]

namespace VaultStore

variable {vault : VaultStore}

theorem key_of_collectRecord {now : Stamp} {needed : EntityKey} {record : SyncRecord Bytes}
    (collected : vault.collectRecord codec secret now needed =
      some record) : record.key = needed := by
  unfold collectRecord at collected
  split at collected
  · cases collected
    rfl
  · obtain ⟨row, _, rfl⟩ := Option.map_eq_some_iff.mp collected
    rfl

variable {key : EntityKey}

/-- A deletion is handed out where there is a tombstone. -/
theorem collectRecord_of_deletedAt (codec : Codec Bytes) (secret : SharedSecret) {stamp : Stamp}
    (now : Stamp) (tombstoned : vault.deletedAt key = some stamp) :
    vault.collectRecord codec secret now key = some ⟨key.1, key.2, stamp, true, codec.noBytes⟩ := by
  rw [collectRecord, tombstoned]

/-- The row is handed out where there is none, under its own stamp. -/
theorem collectRecord_of_rowOf (codec : Codec Bytes) (secret : SharedSecret) {row : Row}
    (now : Stamp) (noTombstone : vault.deletedAt key = none) (stored : vault.rowOf key = some row) :
    ∃ record, vault.collectRecord codec secret now key = some record ∧ record.key = key ∧
      record.updatedAt = row.updatedAt ∧ record.isDeleted = false ∧
      codec.openPayload secret record = some (row.toPayload vault.syncPasswords) := by
  have stamp : vault.localStamps key = some row.updatedAt := by
    rw [localStamps, stored]
    rfl
  refine ⟨⟨key.1, key.2, row.updatedAt, false,
    codec.encrypt secret (codec.toVec (row.toPayload vault.syncPasswords))⟩, ?_, rfl, rfl, rfl, ?_⟩
  · rw [collectRecord, noTombstone, stored, stamp]
    rfl
  · refine openPayload_sealed _ _ ?_ rfl
    have sameKey := (row.key_toPayload vault.syncPasswords).trans (key_of_rowOf stored)
    exact congrArg Prod.fst sameKey

/-- What a vault hands out is consistent. -/
theorem consistent_collectRecord {now : Stamp} {record : SyncRecord Bytes}
    (collected : vault.collectRecord codec secret now key = some record) :
    record.Consistent codec secret := by
  intro live payload opened
  cases tombstoned : vault.deletedAt key with
  | some stamp =>
    rw [collectRecord_of_deletedAt codec secret now tombstoned] at collected
    cases collected
    cases live
  | none =>
    cases stored : vault.rowOf key with
    | none =>
      rw [collectRecord, tombstoned, stored] at collected
      cases collected
    | some row =>
      obtain ⟨sent, isSent, sentKey, sentStamp, _, sentPayload⟩ :=
        collectRecord_of_rowOf codec secret now tombstoned stored
      rw [isSent] at collected
      cases collected
      rw [sentPayload] at opened
      cases opened
      rw [sentKey, sentStamp]
      exact ⟨(row.key_toPayload _).trans (key_of_rowOf stored), row.updatedAt_toPayload _⟩

end VaultStore

/-! ### The turn of another entity -/

/-- What the turn of another record does to an entity. -/
inductive BystanderOutcome (codec : Codec Bytes) (secret : SharedSecret)
    (localStamps : EntityKey → Option Stamp) (now : Stamp) (before : ApplyState)
    (record : SyncRecord Bytes) (after : ApplyState) (key : EntityKey) : Prop
  | untouched (rowOf : after.vault.rowOf key = before.vault.rowOf key)
      (deletedAt : after.vault.deletedAt key = before.vault.deletedAt key)
  | detached (fresh : passes localStamps record) (isDeleted : record.isDeleted = true) (row : Row)
      (stored : before.vault.rowOf key = some row)
      (rowOf : after.vault.rowOf key = some (row.detach record.key))
      (deletedAt : after.vault.deletedAt key = before.vault.deletedAt key)
  | orphaned (fresh : passes localStamps record) (isDeleted : record.isDeleted = true) (row : Row)
      (stored : before.vault.rowOf key = some row) (orphan : row.orphanedBy record.key = true)
      (rowOf : after.vault.rowOf key = none) (deletedAt : after.vault.deletedAt key = some now)
  | displaced (fresh : passes localStamps record) (isLive : record.isDeleted = false)
      (pin : KnownHost) (opened : codec.openPayload secret record = some (.knownHost pin))
      (accepted : before.vault.replacesLocalPin pin = false) (row : Row)
      (stored : before.vault.rowOf key = some row)
      (collides : Table.displaces Row.key Row.endpoint (.knownHost pin) row = true)
      (rowOf : after.vault.rowOf key = none)
      (deletedAt : after.vault.deletedAt key =
        if (Row.knownHost pin).staleFor row then some now else before.vault.deletedAt key)

variable {record : SyncRecord Bytes} {key : EntityKey}

theorem bystander_of_deletes {localStamps : EntityKey → Option Stamp} {now : Stamp}
    {before after : ApplyState} (fresh : passes localStamps record)
    (isDeleted : record.isDeleted = true) (effect : before.vault.Deletes record.key now after.vault)
    (different : key ≠ record.key) :
    BystanderOutcome codec secret localStamps now before record after key := by
  have rowOf := effect.rowOf key
  have deletedAt := effect.deletedAt key
  rw [if_neg different] at rowOf
  cases stored : before.vault.rowOf key with
  | none =>
    rw [stored] at rowOf deletedAt
    refine .untouched (rowOf.trans stored.symm) ?_
    rw [deletedAt, if_neg]
    simpa using different
  | some row =>
    rw [stored, Option.filter_some] at rowOf
    rw [stored, Option.any_some] at deletedAt
    cases orphan : row.orphanedBy record.key with
    | true =>
      rw [orphan] at rowOf
      rw [if_pos (.inr orphan)] at deletedAt
      exact .orphaned fresh isDeleted row stored orphan rowOf deletedAt
    | false =>
      rw [orphan] at rowOf
      rw [if_neg (by simpa [orphan] using different)] at deletedAt
      exact .detached fresh isDeleted row stored rowOf deletedAt

theorem bystander_of_saves {localStamps : EntityKey → Option Stamp} {now : Stamp}
    {before after : ApplyState} {payload : SyncPayload} (fresh : passes localStamps record)
    (isLive : record.isDeleted = false) (opened : codec.openPayload secret record = some payload)
    (effect : before.vault.Saves (before.vault.received (before.lastUsed payload) payload) now
      after.vault) (accepted : before.vault.refuses payload = false) (different : key ≠ payload.key) :
    BystanderOutcome codec secret localStamps now before record after key := by
  have otherRow : key ≠ (before.vault.received (before.lastUsed payload) payload).key := by
    rwa [VaultStore.key_received]
  cases payload with
  | knownHost pin =>
    have rowOf := effect.rowOf key
    have deletedAt := effect.deletedAt key
    rw [if_neg otherRow] at rowOf deletedAt
    cases stored : before.vault.rowOf key with
    | none =>
      rw [stored] at rowOf deletedAt
      exact .untouched (rowOf.trans stored.symm) deletedAt
    | some row =>
      rw [stored, Option.filter_some] at rowOf
      rw [stored, Option.any_some] at deletedAt
      cases collides : Table.displaces Row.key Row.endpoint (.knownHost pin) row with
      | true =>
        rw [VaultStore.received, collides] at rowOf
        exact .displaced fresh isLive pin opened accepted row stored collides rowOf deletedAt
      | false =>
        rw [VaultStore.received, collides] at rowOf
        refine .untouched (rowOf.trans stored.symm) ?_
        rw [deletedAt, if_neg]
        intro stale
        exact Bool.false_ne_true (collides.symm.trans (VaultStore.displaces_of_staleFor stale))
  | _ =>
    exact .untouched (effect.rowOf_of_null rfl otherRow) (effect.deletedAt_of_null rfl otherRow)

theorem bystanderOutcome {localStamps : EntityKey → Option Stamp} (now : Stamp)
    (before : ApplyState) (consistent : record.Consistent codec secret)
    (different : key ≠ record.key) :
    BystanderOutcome codec secret localStamps now before record
      (applyRecord codec secret localStamps now before record) key := by
  rcases turnOutcome_applyRecord codec secret localStamps now before record with
    ⟨_, same⟩ | ⟨fresh, isDeleted, effect, _, _⟩ | ⟨_, _, _, _, same⟩ | ⟨_, _, _, _, same⟩ |
    ⟨fresh, isLive, payload, opened, outcome, _⟩
  · rw [same]
    exact .untouched rfl rfl
  · exact bystander_of_deletes fresh isDeleted effect different
  · rw [same]
    exact .untouched rfl rfl
  · rw [same]
    exact .untouched rfl rfl
  · have sameKey := (consistent isLive payload opened).1
    rcases outcome with ⟨effect, accepted, _⟩ | ⟨_, _, _, same, _⟩ |
      ⟨host, _, _, _, _, isHost, _, rowOf, deletedAt, _, _⟩
    · exact bystander_of_saves fresh isLive opened effect accepted (sameKey ▸ different)
    · exact .untouched (same.rowOf key) (same.deletedAt key)
    · refine .untouched ?_ (deletedAt key)
      subst isHost
      rw [rowOf]
      cases stored : before.vault.rowOf key with
      | none => rfl
      | some row =>
        rw [Option.map_some, VaultStore.updateSecrets_of_key_ne]
        rw [VaultStore.key_of_rowOf stored]
        exact fun same => different (same.trans sameKey)

/-! ### Following one entity through a batch -/

section Loop

variable {localStamps : EntityKey → Option Stamp} {now : Nat → Stamp}

variable {turn : Nat} {state : ApplyState} {records : List (SyncRecord Bytes)}

/-- An entity whose record is in a batch: what holds of it while it waits, what its own turn
makes of that, and what holds from then on. -/
theorem applyLoop_turn (waits settled : ApplyState → Prop) {record : SyncRecord Bytes}
    (nodup : (records.map SyncRecord.key).Nodup) (member : record ∈ records)
    (waiting : ∀ before other, (before, other) ∈
        meetings codec secret localStamps now turn state records → other.key ≠ record.key →
      waits before → ∀ index, waits (applyRecord codec secret localStamps (now index) before other))
    (own : ∀ before, (before, record) ∈
        meetings codec secret localStamps now turn state records →
      waits before →
        ∀ index, settled (applyRecord codec secret localStamps (now index) before record))
    (settling : ∀ before other, (before, other) ∈
        meetings codec secret localStamps now turn state records → other.key ≠ record.key →
      settled before →
        ∀ index, settled (applyRecord codec secret localStamps (now index) before other))
    (start : waits state) :
    settled (applyLoop codec secret localStamps now turn state records) := by
  induction records generalizing turn state with
  | nil => cases member
  | cons first records inductionHypothesis =>
    rw [map_cons, nodup_cons] at nodup
    have apart : ∀ other ∈ records, other.key ≠ first.key := fun other isOther same =>
      nodup.1 (same ▸ mem_map_of_mem isOther)
    rcases mem_cons.mp member with rfl | later
    · refine applyLoop_invariant codec secret localStamps now settled _ _ records ?_ ?_
      · intro before other meets holds index
        exact settling before other (mem_cons_of_mem _ meets)
          (apart other (record_mem_of_mem_meetings meets)) holds index
      · exact own state (mem_cons_self ..) start turn
    · refine inductionHypothesis nodup.2 later ?_ ?_ ?_ ?_
      · exact fun before other meets => waiting before other (mem_cons_of_mem _ meets)
      · exact fun before meets => own before (mem_cons_of_mem _ meets)
      · exact fun before other meets => settling before other (mem_cons_of_mem _ meets)
      · exact waiting state first (mem_cons_self ..) (apart record later).symm start turn

/-- An entity without a record in a batch. -/
theorem applyLoop_bystander (holds : ApplyState → Prop) {key : EntityKey}
    (absent : key ∉ records.map SyncRecord.key) (kept : ∀ before other, (before, other) ∈
        meetings codec secret localStamps now turn state records → other.key ≠ key →
      holds before → ∀ index, holds (applyRecord codec secret localStamps (now index) before other))
    (start : holds state) : holds (applyLoop codec secret localStamps now turn state records) := by
  refine applyLoop_invariant codec secret localStamps now holds turn state records ?_ start
  intro before other meets
  refine kept before other meets fun same => absent ?_
  exact same ▸ mem_map_of_mem (record_mem_of_mem_meetings meets)

/-- A batch leaves the peers and the settings of the vault alone. -/
theorem surroundings_applyRecords {vault after : VaultStore} {warnings : List SyncWarning}
    (applied : applyRecords codec vault records (some secret) now = .ok (after, warnings)) :
    after.surroundings = vault.surroundings := by
  have loop : (appliedState codec secret now vault records).vault.surroundings =
      vault.surroundings :=
    applyLoop_invariant codec secret _ now
      (fun state => state.vault.surroundings = vault.surroundings) 0 _ records
      (fun _ _ _ same _ => (surroundings_applyRecord ..).trans same) rfl
  simp only [applyRecords, Except.ok.injEq, Prod.mk.injEq] at applied
  rw [← applied.1]
  split
  · exact (VaultStore.surroundings_breakGroupCycles _).trans loop
  · exact loop

/-! ### The log of a batch -/

theorem mem_warnings_applyRecord (reading : Stamp) (before : ApplyState)
    (record : SyncRecord Bytes) {warning : SyncWarning} (logged : warning ∈ before.warnings) :
    warning ∈ (applyRecord codec secret localStamps reading before record).warnings := by
  rcases turnOutcome_applyRecord codec secret localStamps reading before record with
    ⟨_, same⟩ | ⟨_, _, _, warnings, _⟩ | ⟨_, _, _, _, same⟩ | ⟨_, _, _, _, same⟩ |
    ⟨_, _, payload, _, outcome, _⟩
  · rwa [same]
  · rwa [warnings]
  · rw [same]
    exact mem_append_left _ logged
  · rw [same]
    exact mem_append_left _ logged
  · rcases outcome with ⟨_, _, warnings⟩ | ⟨_, _, _, _, warnings⟩ |
      ⟨_, _, _, _, _, _, _, _, _, _, warnings⟩
    · rwa [warnings]
    · rw [warnings]
      exact mem_append_left _ logged
    · rw [warnings]
      exact mem_append_left _ logged

/-- What a turn has logged is in the log of the batch. -/
theorem mem_warnings_of_meets {before : ApplyState} {record : SyncRecord Bytes}
    (meets : (before, record) ∈ meetings codec secret localStamps now turn state records) :
    ∃ index, ∀ warning ∈
        (applyRecord codec secret localStamps (now index) before record).warnings,
      warning ∈ (applyLoop codec secret localStamps now turn state records).warnings := by
  induction records generalizing turn state with
  | nil => cases meets
  | cons first records inductionHypothesis =>
    rcases mem_cons.mp meets with same | later
    · cases same
      refine ⟨turn, fun warning logged => ?_⟩
      refine applyLoop_invariant codec secret localStamps now
        (fun state => warning ∈ state.warnings) _ _ records ?_ logged
      exact fun before other _ logged index => mem_warnings_applyRecord _ before other logged
    · exact inductionHypothesis later

end Loop

end Oryxis

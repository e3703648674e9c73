/-
This file follows one entity through the transfer of a collected batch.

There are three things a vault can hold of an entity: a row, a tombstone, nothing.
An entity that is not in the batch keeps what it has, up to references to what the
batch deletes. An entity of which the batch brings a later row or a deletion has
that row or a tombstone afterwards, unless its record was refused. What can come
between is a deleted host that takes the entity along as its rule, or a pin that
pushes it out; both are named as conditions here.
-/

import Oryxis.Sync.Batches
import Oryxis.Sync.Shared

namespace Oryxis

open Library List

/-! ### What a vault holds of an entity -/

/-- What is followed of a row: anything about it that a device keeps when it clears references to
what is gone. The stamp and the endpoint are part of it. -/
structure Followed (gone : List EntityKey) (stamp : Stamp) (endpoint : Option (String × Nat))
    (version : Row → Prop) : Prop where
  updatedAt : ∀ {own}, version own → own.updatedAt = stamp
  endpoint : ∀ {own}, version own → own.endpoint = endpoint
  kept : ∀ {own other}, version own → other ∈ gone → own.orphanedBy other = false
  detach : ∀ {own other}, version own → other ∈ gone → version (own.detach other)

/-- The vault holds this version of an entity. -/
structure HoldsRow (version : Row → Prop) (key : EntityKey) (vault : VaultStore) : Prop where
  stored : ∃ own, vault.rowOf key = some own ∧ version own
  notDeleted : vault.deletedAt key = none

/-- The vault holds no row of an entity. -/
structure HoldsNone (key : EntityKey) (deletedAt : Option Stamp) (vault : VaultStore) : Prop where
  noRow : vault.rowOf key = none
  deletedAt : vault.deletedAt key = deletedAt

theorem holdsRow_of_rowOf {vault : VaultStore} {key : EntityKey} {row : Row}
    (exclusive : vault.rowOf key = none ∨ vault.deletedAt key = none)
    (stored : vault.rowOf key = some row) {version : Row → Prop} (isVersion : version row) :
    HoldsRow version key vault := by
  refine ⟨⟨row, stored, isVersion⟩, exclusive.resolve_left ?_⟩
  rw [stored]
  exact Option.some_ne_none row

/-- A row that is the version of another one, up to references to what is gone. -/
def Row.IsVersion (gone : List EntityKey) (withSecrets : Bool) (row own : Row) : Prop :=
  own.AgreesUpTo gone withSecrets row ∧ own.updatedAt = row.updatedAt

theorem Row.isVersion_refl (gone : List EntityKey) (withSecrets : Bool) (row : Row) :
    row.IsVersion gone withSecrets row :=
  ⟨.refl gone withSecrets row, rfl⟩

theorem followed_isVersion {gone : List EntityKey} {row : Row}
    (kept : ∀ other ∈ gone, row.orphanedBy other = false) (withSecrets : Bool) :
    Followed gone row.updatedAt row.endpoint (row.IsVersion gone withSecrets) where
  updatedAt := And.right
  endpoint version := Row.endpoint_of_agrees version.1
  kept := by
    rintro own other ⟨agrees, _⟩ isGone
    rw [Row.orphanedBy_of_agrees agrees]
    exact kept other isGone
  detach := by
    rintro own other ⟨agrees, stamp⟩ isGone
    refine ⟨(Row.shared_forget_detach isGone withSecrets own).trans agrees, ?_⟩
    rw [Row.updatedAt_detach, stamp]

/-- It still is when it has been sent and received. -/
theorem Row.isVersion_received {gone : List EntityKey} {withSecrets syncPasswords : Bool}
    {row own : Row} (shares : withSecrets = true → syncPasswords = true ∧ row.isPublicOnly = false)
    (isVersion : row.IsVersion gone withSecrets own) (vault : VaultStore)
    (lastUsed : Option Stamp) :
    row.IsVersion gone withSecrets (vault.received lastUsed (own.toPayload syncPasswords)) := by
  obtain ⟨agrees, stamp⟩ := isVersion
  refine ⟨?_, ?_⟩
  · refine (Row.agreesUpTo_of_shared (Row.shared_received _ _ fun isShared => ?_) gone).trans agrees
    subst isShared
    rw [Row.isPublicOnly_of_agrees agrees]
    exact shares rfl
  · rw [VaultStore.updatedAt_received, Row.updatedAt_toPayload, stamp]

variable {Bytes : Type} {codec : Codec Bytes} {secret : SharedSecret}

/-! ### One turn -/

/-- A record that passes is carried out, not refused. -/
def Carried (codec : Codec Bytes) (secret : SharedSecret) (before : ApplyState)
    (record : SyncRecord Bytes) : Prop :=
  if record.isDeleted then
    ¬(record.entityType = .group ∧ before.vault.groupInUse record.entityId = true)
  else
    ∃ payload, codec.openPayload secret record = some payload ∧
      before.vault.refuses payload = false

section Turn

variable {localStamps : EntityKey → Option Stamp} {before : ApplyState}
  {record : SyncRecord Bytes}

theorem deletes_of_carried (now : Stamp) (fresh : passes localStamps record)
    (isDeleted : record.isDeleted = true) (carried : Carried codec secret before record) :
    before.vault.Deletes record.key now
      (applyRecord codec secret localStamps now before record).vault := by
  rw [Carried, if_pos isDeleted] at carried
  rcases turnOutcome_applyRecord codec secret localStamps now before record with
    ⟨held, _⟩ | ⟨_, _, effect, _, _⟩ | ⟨_, _, isGroup, inUse, _⟩ | ⟨_, isLive, _, _, _⟩ |
    ⟨_, isLive, _, _, _, _⟩
  · exact absurd fresh held
  · exact effect
  · exact absurd ⟨isGroup, inUse⟩ carried
  · rw [isDeleted] at isLive
    cases isLive
  · rw [isDeleted] at isLive
    cases isLive

theorem saves_of_carried (now : Stamp) (fresh : passes localStamps record)
    (isLive : record.isDeleted = false) (carried : Carried codec secret before record)
    {payload : SyncPayload} (opened : codec.openPayload secret record = some payload) :
    before.vault.Saves (before.vault.received (before.lastUsed payload) payload) now
      (applyRecord codec secret localStamps now before record).vault := by
  rw [Carried, if_neg (by rw [isLive]; exact Bool.false_ne_true)] at carried
  obtain ⟨other, otherOpened, accepted⟩ := carried
  rw [opened] at otherOpened
  cases otherOpened
  rcases turnOutcome_applyRecord codec secret localStamps now before record with
    ⟨held, _⟩ | ⟨_, isDeleted, _, _, _⟩ | ⟨_, isDeleted, _, _, _⟩ | ⟨_, _, closed, _, _⟩ |
    ⟨_, _, found, foundOpened, outcome, _⟩
  · exact absurd fresh held
  · rw [isLive] at isDeleted
    cases isDeleted
  · rw [isLive] at isDeleted
    cases isDeleted
  · rw [opened] at closed
    cases closed
  · rw [opened] at foundOpened
    cases foundOpened
    rcases outcome with ⟨effect, _, _⟩ | ⟨pin, isPin, replaces, _, _⟩ |
      ⟨host, _, _, _, _, isHost, misses, _, _, _, _⟩
    · exact effect
    · subst isPin
      exact absurd (accepted.symm.trans replaces) Bool.false_ne_true
    · subst isHost
      exact absurd (accepted.symm.trans misses) Bool.false_ne_true

/-- What is not carried out is logged. -/
theorem carried_of_warnings (now : Stamp) (fresh : passes localStamps record)
    (quiet : (applyRecord codec secret localStamps now before record).warnings = []) :
    Carried codec secret before record := by
  unfold Carried
  rcases turnOutcome_applyRecord codec secret localStamps now before record with
    ⟨held, _⟩ | ⟨_, isDeleted, _, _, _, free⟩ | ⟨_, _, _, _, same⟩ | ⟨_, _, _, _, same⟩ |
    ⟨_, isLive, payload, opened, outcome, _⟩
  · exact absurd fresh held
  · rw [if_pos isDeleted]
    exact free
  · rw [same] at quiet
    simp [ApplyState.warn] at quiet
  · rw [same] at quiet
    simp [ApplyState.warn] at quiet
  · rw [if_neg (by rw [isLive]; exact Bool.false_ne_true)]
    rcases outcome with ⟨_, accepted, _⟩ | ⟨_, _, _, _, warnings⟩ |
      ⟨_, _, _, _, _, _, _, _, _, _, warnings⟩
    · exact ⟨payload, opened, accepted⟩
    · rw [warnings] at quiet
      simp at quiet
    · rw [warnings] at quiet
      simp at quiet

/-- What holds no row is left alone by every other turn. -/
theorem holdsNone_bystander (now : Stamp) (consistent : record.Consistent codec secret)
    {key : EntityKey} (different : key ≠ record.key) {deletedAt : Option Stamp}
    (holds : HoldsNone key deletedAt before.vault) :
    HoldsNone key deletedAt (applyRecord codec secret localStamps now before record).vault := by
  rcases bystanderOutcome now before consistent different with ⟨rowOf, sameDeletedAt⟩ |
    ⟨_, _, _, stored, _, _⟩ | ⟨_, _, _, stored, _, _, _⟩ | ⟨_, _, _, _, _, _, stored, _, _, _⟩
  · exact ⟨rowOf.trans holds.noRow, sameDeletedAt.trans holds.deletedAt⟩
  all_goals
    rw [holds.noRow] at stored
    cases stored

/-- A row is left alone by every other turn that neither orphans it nor pushes it out. -/
theorem holdsRow_bystander (now : Stamp) (consistent : record.Consistent codec secret)
    {key : EntityKey} (different : key ≠ record.key) {gone : List EntityKey} {stamp : Stamp}
    {endpoint : Option (String × Nat)} {version : Row → Prop}
    (followed : Followed gone stamp endpoint version)
    (isGone : record.isDeleted = true → record.key ∈ gone)
    (apart : record.isDeleted = false → ∀ pin,
      codec.openPayload secret record = some (.knownHost pin) →
      (Row.knownHost pin).endpoint ≠ endpoint)
    (holds : HoldsRow version key before.vault) :
    HoldsRow version key (applyRecord codec secret localStamps now before record).vault := by
  obtain ⟨⟨own, found, isVersion⟩, notDeleted⟩ := holds
  rcases bystanderOutcome now before consistent different with ⟨rowOf, sameDeletedAt⟩ |
    ⟨_, isDeleted, other, stored, rowOf, sameDeletedAt⟩ |
    ⟨_, isDeleted, other, stored, orphan, _, _⟩ |
    ⟨_, isLive, pin, opened, _, other, stored, collides, _, _⟩
  · exact ⟨⟨own, rowOf.trans found, isVersion⟩, sameDeletedAt.trans notDeleted⟩
  · rw [found] at stored
    cases stored
    exact ⟨⟨own.detach record.key, rowOf, followed.detach isVersion (isGone isDeleted)⟩,
      sameDeletedAt.trans notDeleted⟩
  · rw [found] at stored
    cases stored
    rw [followed.kept isVersion (isGone isDeleted)] at orphan
    cases orphan
  · rw [found] at stored
    cases stored
    have pinKey : (Row.knownHost pin).key = record.key := (consistent isLive _ opened).1
    have otherKey : own.key ≠ (Row.knownHost pin).key := by
      rwa [VaultStore.key_of_rowOf found, pinKey]
    have sameEndpoint := VaultStore.endpoint_of_displaces collides otherKey
    rw [followed.endpoint isVersion] at sameEndpoint
    exact absurd sameEndpoint (apart isLive pin opened)

end Turn

/-! ### One batch -/

section Batch

variable {source target : VaultStore} {keys : List EntityKey} {collectedAt : Stamp}
  {records : List (SyncRecord Bytes)} {now : Nat → Stamp}

theorem mem_of_collected
    (collected : source.collectRecords codec keys (some secret) collectedAt = .ok records)
    (record : SyncRecord Bytes) :
    record ∈ records ↔
      record.key ∈ keys ∧ source.collectRecord codec secret collectedAt record.key = some record := by
  cases collected
  rw [mem_filterMap]
  constructor
  · rintro ⟨key, member, isRecord⟩
    have sameKey := VaultStore.key_of_collectRecord isRecord
    subst sameKey
    exact ⟨member, isRecord⟩
  · rintro ⟨member, isRecord⟩
    exact ⟨record.key, member, isRecord⟩

theorem nodup_of_collected
    (collected : source.collectRecords codec keys (some secret) collectedAt = .ok records)
    (nodup : keys.Nodup) : (records.map SyncRecord.key).Nodup := by
  cases collected
  induction keys with
  | nil => exact nodup_nil
  | cons key keys inductionHypothesis =>
    rw [nodup_cons] at nodup
    have rest := inductionHypothesis nodup.2
    cases isRecord : source.collectRecord codec secret collectedAt key with
    | none => rwa [filterMap_cons_none isRecord]
    | some record =>
      rw [filterMap_cons_some isRecord, map_cons, nodup_cons]
      refine ⟨fun member => nodup.1 ?_, rest⟩
      obtain ⟨other, isOther, sameKey⟩ := mem_map.mp member
      obtain ⟨otherKey, isKey, otherRecord⟩ := mem_filterMap.mp isOther
      rw [VaultStore.key_of_collectRecord isRecord,
        VaultStore.key_of_collectRecord otherRecord] at sameKey
      exact sameKey ▸ isKey

theorem consistent_of_meets {localStamps : EntityKey → Option Stamp} {turn : Nat}
    {state before : ApplyState} {record : SyncRecord Bytes}
    (collected : source.collectRecords codec keys (some secret) collectedAt = .ok records)
    (meets : (before, record) ∈ meetings codec secret localStamps now turn state records) :
    record.Consistent codec secret :=
  VaultStore.consistent_collectRecord
    ((mem_of_collected collected record).mp (record_mem_of_mem_meetings meets)).2

/-- Every turn of a batch on a vault. -/
def VaultStore.turns (codec : Codec Bytes) (secret : SharedSecret) (now : Nat → Stamp)
    (target : VaultStore) (records : List (SyncRecord Bytes)) :
    List (ApplyState × SyncRecord Bytes) :=
  meetings codec secret target.localStamps now 0 ⟨target, none, []⟩ records

theorem carried_of_meets
    (quiet : (appliedState codec secret now target records).warnings = [])
    {before : ApplyState} {record : SyncRecord Bytes}
    (meets : (before, record) ∈ target.turns codec secret now records)
    (fresh : passes target.localStamps record) : Carried codec secret before record := by
  obtain ⟨index, logged⟩ := mem_warnings_of_meets meets
  refine carried_of_warnings (now index) fresh (eq_nil_iff_forall_not_mem.mpr ?_)
  intro warning isLogged
  have inLog := logged warning isLogged
  change warning ∈ (appliedState codec secret now target records).warnings at inLog
  rw [quiet] at inLog
  cases inLog

/-- What a batch deletes is gone, and no pin it carries but the entity's own has this endpoint. -/
structure Spares (codec : Codec Bytes) (secret : SharedSecret) (gone : List EntityKey)
    (key : EntityKey) (endpoint : Option (String × Nat)) (records : List (SyncRecord Bytes)) :
    Prop where
  isGone : ∀ record ∈ records, record.isDeleted = true → record.key ∈ gone
  apart : ∀ record ∈ records, record.key ≠ key → record.isDeleted = false → ∀ pin,
    codec.openPayload secret record = some (.knownHost pin) →
    (Row.knownHost pin).endpoint ≠ endpoint

variable {key : EntityKey}

theorem not_mem_of_unlisted
    (collected : source.collectRecords codec keys (some secret) collectedAt = .ok records)
    (unlisted : key ∉ keys) : key ∉ records.map SyncRecord.key := by
  intro member
  obtain ⟨record, isRecord, sameKey⟩ := mem_map.mp member
  exact unlisted (sameKey ▸ ((mem_of_collected collected record).mp isRecord).1)

theorem holdsNone_unlisted
    (collected : source.collectRecords codec keys (some secret) collectedAt = .ok records)
    (unlisted : key ∉ keys) {deletedAt : Option Stamp} (holds : HoldsNone key deletedAt target) :
    HoldsNone key deletedAt (appliedState codec secret now target records).vault := by
  refine applyLoop_bystander (fun state => HoldsNone key deletedAt state.vault)
    (not_mem_of_unlisted collected unlisted) ?_ holds
  intro before other meets different holds index
  exact holdsNone_bystander _ (consistent_of_meets collected meets) different.symm holds

section Rows

variable {gone : List EntityKey} {stamp : Stamp} {endpoint : Option (String × Nat)}
  {version : Row → Prop}

theorem holdsRow_turn
    (collected : source.collectRecords codec keys (some secret) collectedAt = .ok records)
    (followed : Followed gone stamp endpoint version)
    (spares : Spares codec secret gone key endpoint records) (before : ApplyState)
    (other : SyncRecord Bytes) (meets : (before, other) ∈ target.turns codec secret now records)
    (different : other.key ≠ key) (holds : HoldsRow version key before.vault) (index : Nat) :
    HoldsRow version key
      (applyRecord codec secret target.localStamps (now index) before other).vault := by
  have member := record_mem_of_mem_meetings meets
  exact holdsRow_bystander _ (consistent_of_meets collected meets) different.symm followed
    (spares.isGone other member) (spares.apart other member different) holds

theorem holdsRow_unlisted
    (collected : source.collectRecords codec keys (some secret) collectedAt = .ok records)
    (unlisted : key ∉ keys) (followed : Followed gone stamp endpoint version)
    (spares : Spares codec secret gone key endpoint records) (holds : HoldsRow version key target) :
    HoldsRow version key (appliedState codec secret now target records).vault := by
  refine applyLoop_bystander (fun state => HoldsRow version key state.vault)
    (not_mem_of_unlisted collected unlisted) ?_ holds
  exact fun before other meets => holdsRow_turn collected followed spares before other meets

/-- A later row of the source is taken over. -/
theorem holdsRow_fetched
    (collected : source.collectRecords codec keys (some secret) collectedAt = .ok records)
    (nodup : keys.Nodup) (listed : key ∈ keys) (held : HoldsRow version key source)
    (followed : Followed gone stamp endpoint version)
    (received : ∀ vault own lastUsed, version own →
      version (VaultStore.received vault lastUsed (own.toPayload source.syncPasswords)))
    (later : ∀ localStamp, target.localStamps key = some localStamp → localStamp < stamp)
    (carried : ∀ before record, (before, record) ∈ target.turns codec secret now records →
      record.key = key → passes target.localStamps record → Carried codec secret before record)
    (spares : Spares codec secret gone key endpoint records) :
    HoldsRow version key (appliedState codec secret now target records).vault := by
  obtain ⟨⟨own, stored, isVersion⟩, notDeleted⟩ := held
  obtain ⟨record, isRecord, recordKey, recordStamp, isLive, opened⟩ :=
    VaultStore.collectRecord_of_rowOf codec secret collectedAt notDeleted stored
  subst recordKey
  have member : record ∈ records := (mem_of_collected collected record).mpr ⟨listed, isRecord⟩
  refine applyLoop_turn (fun _ => True) (fun state => HoldsRow version record.key state.vault)
    (nodup_of_collected collected nodup) member (fun _ _ _ _ _ _ => trivial) ?_ ?_ trivial
  · intro before meets _ index
    have fresh : passes target.localStamps record := by
      intro localStamp isLocal
      rw [recordStamp, followed.updatedAt isVersion]
      exact later localStamp isLocal
    have effect :=
      saves_of_carried (now index) fresh isLive (carried before record meets rfl fresh) opened
    have sameKey : (own.toPayload source.syncPasswords).key = record.key :=
      (own.key_toPayload _).trans (VaultStore.key_of_rowOf stored)
    have rowKey : (before.vault.received (before.lastUsed (own.toPayload source.syncPasswords))
        (own.toPayload source.syncPasswords)).key = record.key :=
      (VaultStore.key_received ..).trans sameKey
    exact ⟨⟨_, rowKey ▸ effect.rowOf_self, received _ own _ isVersion⟩,
      rowKey ▸ effect.deletedAt_self⟩
  · exact fun before other meets => holdsRow_turn collected followed spares before other meets

end Rows

/-- A later deletion of the source is carried out, and stamped with the clock. -/
theorem holdsNone_fetched
    (collected : source.collectRecords codec keys (some secret) collectedAt = .ok records)
    (nodup : keys.Nodup) (listed : key ∈ keys) {deletedAt : Stamp}
    (held : source.deletedAt key = some deletedAt)
    (later : ∀ localStamp, target.localStamps key = some localStamp → localStamp < deletedAt)
    (carried : ∀ before record, (before, record) ∈ target.turns codec secret now records →
      record.key = key → passes target.localStamps record → Carried codec secret before record) :
    ∃ index, HoldsNone key (some (now index)) (appliedState codec secret now target records).vault := by
  have isRecord := VaultStore.collectRecord_of_deletedAt codec secret collectedAt held
  have member := (mem_of_collected collected ⟨key.1, key.2, deletedAt, true, codec.noBytes⟩).mpr
    ⟨listed, isRecord⟩
  refine applyLoop_turn (fun _ => True)
    (fun state => ∃ index, HoldsNone key (some (now index)) state.vault)
    (nodup_of_collected collected nodup) member (fun _ _ _ _ _ _ => trivial) ?_ ?_ trivial
  · intro before meets _ index
    have fresh : passes target.localStamps
        (⟨key.1, key.2, deletedAt, true, codec.noBytes⟩ : SyncRecord Bytes) := later
    have effect := deletes_of_carried (now index) fresh rfl (carried before _ meets rfl fresh)
    refine ⟨index, ⟨?_, ?_⟩⟩
    · exact (effect.rowOf key).trans (if_pos rfl)
    · exact (effect.deletedAt key).trans (if_pos (.inl rfl))
  · rintro before other meets different ⟨index, holds⟩ reading
    exact ⟨index, holdsNone_bystander _ (consistent_of_meets collected meets) different.symm holds⟩

end Batch

end Oryxis

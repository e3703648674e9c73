/-
This file is the snapshot a vault is written to a shared file as, and what merging
one should come to.

A snapshot is every record of the manifest. It is merged the way a batch of a peer
is, and a merged vault is written back over the file: what the merge has refused or
taken away is then gone for every device. Whether it does can be read off the two
vaults and the order of the records. A record that is newer is accepted by what
stands when its turn comes, and all it may take along are rows whose own newer
record is still to come.

The outer seal of the file and its header are not modelled: a file that does not
open under the secret is not merged.
-/

import Oryxis.Sync.Convergence
import Oryxis.Sync.Pins

namespace Oryxis

variable {Bytes : Type}

/-! ### Writing and merging -/

/-- `build_full_snapshot`: the records of everything the manifest lists. -/
def VaultStore.buildFullSnapshot (codec : Codec Bytes) (vault : VaultStore) (secret : SharedSecret)
    (now : Stamp) : Except SyncError (List (SyncRecord Bytes)) :=
  vault.collectRecords codec (vault.buildManifest.map ManifestEntry.key) (some secret) now

/-- `merge_snapshot`: the vault and the log afterwards, and how many records there were. -/
def mergeSnapshot (codec : Codec Bytes) (vault : VaultStore) (records : List (SyncRecord Bytes))
    (secret : SharedSecret) (now : Nat → Stamp) :
    Except SyncError (VaultStore × List SyncWarning × Nat) := do
  let (after, warnings) ← applyRecords codec vault records (some secret) now
  return (after, warnings, records.length)

/-! ### What a merge should come to -/

namespace VaultStore

instance (vault other : VaultStore) (key : EntityKey) : Decidable (vault.Outdated other key) :=
  match held : other.localStamps key with
  | none => isFalse fun outdated => by
      obtain ⟨stamp, isStamp, _⟩ := outdated
      rw [held] at isStamp
      cases isStamp
  | some stamp =>
    decidable_of_iff (∀ localStamp ∈ vault.localStamps key, localStamp < stamp)
      ⟨fun later => ⟨stamp, held, later⟩, fun outdated => by
        obtain ⟨other, isOther, later⟩ := outdated
        rw [held] at isOther
        cases isOther
        exact later⟩

/-- The newer of what two vaults have of an entity; no row is a deletion. -/
def newer (target source : VaultStore) (key : EntityKey) : Option Row :=
  if target.Outdated source key then source.rowOf key else target.rowOf key

end VaultStore

def Row.withoutParent : Row → Row
  | .group entity => .group { entity with parentId := none }
  | row => row

/-- A record carries what a vault has of an entity: its deletion, or its row under the row's stamp.
Of the row only what the devices share counts, without references to what is gone and without
the parent of a group. -/
def SyncRecord.Carries (codec : Codec Bytes) (secret : SharedSecret) (gone : List EntityKey)
    (record : SyncRecord Bytes) : Option Row → Prop
  | none => record.isDeleted = true
  | some row =>
    record.isDeleted = false ∧ record.updatedAt = row.updatedAt ∧
      ∃ (own : Row) (syncPasswords : Bool),
        codec.openPayload secret record = some (own.toPayload syncPasswords) ∧
          row.withoutParent.AgreesUpTo gone false own.withoutParent

/-- The deletions a snapshot brings. -/
def newerDeletions (target source : VaultStore) (records : List (SyncRecord Bytes)) :
    List EntityKey :=
  (records.map SyncRecord.key).filter fun key =>
    target.Outdated source key ∧ source.rowOf key = none

/-- Nothing was refused, and the next snapshot has the newer version of every entity. -/
structure LosesNothing (codec : Codec Bytes) (secret : SharedSecret) (target source : VaultStore)
    (records : List (SyncRecord Bytes)) (warnings : List SyncWarning)
    (next : List (SyncRecord Bytes)) : Prop where
  quiet : warnings = []
  kept : ∀ key, target.Knows key ∨ source.Knows key → ∃ record ∈ next, record.key = key ∧
    record.Carries codec secret (newerDeletions target source records) (target.newer source key)

/-! ### What decides it -/

namespace VaultStore

/-- What stands under a key once the records of `earlier` have had their turns. -/
def standing (target source : VaultStore) (earlier : List EntityKey) (key : EntityKey) :
    Option Row :=
  if key ∈ earlier ∧ target.Outdated source key then source.rowOf key else target.rowOf key

/-- The newer record of a key is still to come. -/
def Awaited (target source : VaultStore) (earlier : List EntityKey) (key : EntityKey) : Prop :=
  key ∉ earlier ∧ target.Outdated source key

/-- The record of a key is accepted: no host stands in a group that is deleted, the group of a host
stands, and no pin of its triple has another fingerprint. -/
def Accepted (target source : VaultStore) (earlier : List EntityKey) (key : EntityKey) : Prop :=
  match source.rowOf key with
  | none =>
    key.1 = .group → target.rowOf key ≠ none → ∀ hostKey host secrets,
      target.standing source earlier hostKey = some (.connection host secrets) →
        host.groupId ≠ some key.2
  | some (.connection host _) =>
    ∀ groupId, host.groupId = some groupId → target.standing source earlier (.group, groupId) ≠ none
  | some (.knownHost pin) =>
    ∀ pinKey other, target.standing source earlier pinKey = some (.knownHost other) →
      other.triple = pin.triple → other.fingerprint = pin.fingerprint
  | some _ => True

/-- The record of a key takes a row along: a rule with its host, a pin with its endpoint. -/
def TakesAlong (source : VaultStore) (key : EntityKey) (row : Row) : Prop :=
  match source.rowOf key with
  | none => row.orphanedBy key = true
  | some own => row.endpoint ≠ none ∧ row.endpoint = own.endpoint

/-- The turn of a newer record does no harm. -/
structure Harmless (target source : VaultStore) (earlier : List EntityKey) (key : EntityKey) :
    Prop where
  accepted : target.Accepted source earlier key
  spares : ∀ other row, other ≠ key → target.standing source earlier other = some row →
    source.TakesAlong key row → target.Awaited source earlier other

/-- No newer record of a batch does harm in its turn. -/
def Absorbs (target source : VaultStore) (records : List (SyncRecord Bytes)) : Prop :=
  ∀ earlier key later, records.map SyncRecord.key = earlier ++ key :: later →
    target.Outdated source key → target.Harmless source earlier key

variable {target source : VaultStore} {earlier : List EntityKey} {key other : EntityKey}

theorem standing_append (different : other ≠ key) :
    target.standing source (earlier ++ [key]) other = target.standing source earlier other := by
  unfold standing
  simp only [List.mem_append, List.mem_singleton, different, or_false]

theorem standing_append_self :
    target.standing source (earlier ++ [key]) key = target.newer source key := by
  unfold standing newer
  simp only [List.mem_append, List.mem_singleton, or_true, true_and]

theorem awaited_append (different : other ≠ key) :
    target.Awaited source (earlier ++ [key]) other ↔ target.Awaited source earlier other := by
  unfold Awaited
  simp only [List.mem_append, List.mem_singleton, different, or_false]

/-- Where nothing newer is to come, what stands is the newer version. -/
theorem standing_of_not_awaited (settled : ¬ target.Awaited source earlier key) :
    target.standing source earlier key = target.newer source key := by
  unfold standing newer
  by_cases outdated : target.Outdated source key
  · have member : key ∈ earlier := by
      by_contra absent
      exact settled ⟨absent, outdated⟩
    rw [if_pos ⟨member, outdated⟩, if_pos outdated]
  · rw [if_neg fun both => outdated both.2, if_neg outdated]

/-- Where it is, what stands is what the vault had. -/
theorem standing_of_not_mem (absent : key ∉ earlier) :
    target.standing source earlier key = target.rowOf key :=
  if_neg fun both => absent both.1

theorem standing_eq_of_stale (upToDate : ¬ target.Outdated source key) :
    target.standing source (earlier ++ [key]) = target.standing source earlier := by
  funext other
  by_cases same : other = key
  · subst same
    unfold standing
    rw [if_neg fun both => upToDate both.2, if_neg fun both => upToDate both.2]
  · exact standing_append same

end VaultStore

/-! ### The records of a snapshot -/

variable {codec : Codec Bytes} {secret : SharedSecret}

/-- What the record of an entity says, where no entity is both a row and a tombstone. -/
structure Speaks (codec : Codec Bytes) (secret : SharedSecret) (source : VaultStore)
    (record : SyncRecord Bytes) : Prop where
  stamp : source.localStamps record.key = some record.updatedAt
  deleted : record.isDeleted = true ↔ source.rowOf record.key = none
  opened : ∀ row, source.rowOf record.key = some row →
    codec.openPayload secret record = some (row.toPayload source.syncPasswords)
  consistent : record.Consistent codec secret

theorem speaks_of_collectRecord {source : VaultStore} {key : EntityKey} {now : Stamp}
    {record : SyncRecord Bytes} (exclusive : source.Exclusive)
    (collected : source.collectRecord codec secret now key = some record) :
    record.key = key ∧ Speaks codec secret source record := by
  have sameKey := VaultStore.key_of_collectRecord collected
  refine ⟨sameKey, ?_⟩
  subst sameKey
  have consistent := VaultStore.consistent_collectRecord collected
  cases tombstoned : source.deletedAt record.key with
  | some stamp =>
    have noRow := (exclusive record.key).resolve_right (by rw [tombstoned]; exact Option.some_ne_none _)
    rw [VaultStore.collectRecord_of_deletedAt codec secret now tombstoned] at collected
    have isRecord := Option.some.inj collected
    refine ⟨?_, ?_, ?_, consistent⟩
    · rw [VaultStore.localStamps, noRow, tombstoned, ← isRecord]
      rfl
    · rw [noRow, ← isRecord]
      exact ⟨fun _ => rfl, fun _ => rfl⟩
    · intro row stored
      rw [noRow] at stored
      cases stored
  | none =>
    cases stored : source.rowOf record.key with
    | none =>
      rw [VaultStore.collectRecord, tombstoned, stored] at collected
      cases collected
    | some row =>
      obtain ⟨sent, isSent, _, stamp, live, opened⟩ :=
        VaultStore.collectRecord_of_rowOf codec secret now tombstoned stored
      rw [isSent] at collected
      cases collected
      refine ⟨?_, ?_, ?_, consistent⟩
      · rw [VaultStore.localStamps, stored, stamp]
        rfl
      · rw [stored, live]
        simp
      · intro other isOther
        rw [stored] at isOther
        cases isOther
        exact opened

/-- The gate lets through what is newer. -/
theorem passes_iff_outdated {target source : VaultStore} {record : SyncRecord Bytes}
    (speaks : Speaks codec secret source record) :
    passes target.localStamps record ↔ target.Outdated source record.key := by
  constructor
  · intro fresh
    exact ⟨record.updatedAt, speaks.stamp, fresh⟩
  · rintro ⟨stamp, isStamp, later⟩
    rw [speaks.stamp] at isStamp
    cases isStamp
    exact later

end Oryxis

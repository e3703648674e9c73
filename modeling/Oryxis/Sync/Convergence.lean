/-
This file is what one session achieves between two vaults without pins and groups:
for every entity, both sides end up with what the later of the two had.

A later row is there on both sides afterwards, a later deletion stands on both as a
tombstone. There is one exception, and the store makes it on purpose: a port-forward
rule does not outlive its host. Where the session carries the deletion of a host,
the device that carries it out deletes the rules of that host with it, also one the
other device has a later version of.
-/

import Oryxis.Sync.Exclusive
import Oryxis.Sync.Transfers

namespace Oryxis

/-! ### What both sides should hold -/

/-- The vault knows no pin and no group. -/
def VaultStore.IsPlain (vault : VaultStore) : Prop :=
  ∀ key, vault.Knows key → key.1 ≠ .knownHost ∧ key.1 ≠ .group

/-- Where two vaults hold an entity under one stamp, they hold the same of it. -/
def SameUnderStamp (vault other : VaultStore) : Prop :=
  ∀ key stamp, vault.localStamps key = some stamp → other.localStamps key = some stamp →
    (vault.rowOf key).map (Row.shared true) = (other.rowOf key).map (Row.shared true)

theorem SameUnderStamp.symm {vault other : VaultStore} (same : SameUnderStamp vault other) :
    SameUnderStamp other vault :=
  fun key stamp held otherHeld => (same key stamp otherHeld held).symm

/-- The entities of which a session has carried the deletion. -/
def carriedDeletions (client server : VaultStore) (done : SessionEnd) : List EntityKey :=
  ((neededFromRemote client.buildManifest server.buildManifest).filter fun key =>
      (server.deletedAt key).isSome) ++
    (toPushToRemote client.buildManifest server.buildManifest).filter fun key =>
      (done.client.deletedAt key).isSome

/-- Whether a vault hands out the secrets of a row. -/
def VaultStore.sharesSecrets (vault : VaultStore) (row : Row) : Bool :=
  vault.syncPasswords && !row.isPublicOnly

/-- What the winner had of an entity stands in a vault: its row, or a tombstone. -/
def Settled (gone : List EntityKey) (winner : VaultStore) (key : EntityKey) (vault : VaultStore) :
    Prop :=
  match winner.rowOf key with
  | some row => HoldsRow (row.IsVersion gone (winner.sharesSecrets row)) key vault
  | none => vault.rowOf key = none ∧ vault.deletedAt key ≠ none

/-- The winner's row is a rule of a host whose deletion was carried. -/
def TakenAlong (gone : List EntityKey) (winner : VaultStore) (key : EntityKey) : Prop :=
  ∃ row, winner.rowOf key = some row ∧ ∃ other ∈ gone, row.orphanedBy other = true

/-- The winner of an entity is the side with the later stamp, either one under equal stamps. -/
def Wins (winner other : VaultStore) (key : EntityKey) : Prop :=
  winner.Knows key ∧ ¬ winner.Outdated other key

namespace VaultStore

theorem knows_iff_localStamps (vault : VaultStore) (key : EntityKey) :
    vault.Knows key ↔ ∃ stamp, vault.localStamps key = some stamp := by
  unfold Knows localStamps
  cases vault.rowOf key with
  | some row => simp
  | none => cases vault.deletedAt key <;> simp

theorem not_outdated_of_same {vault other : VaultStore} {key : EntityKey} {stamp : Stamp}
    (held : vault.localStamps key = some stamp) (otherHeld : other.localStamps key = some stamp) :
    ¬ vault.Outdated other key := by
  rintro ⟨otherStamp, isStamp, later⟩
  rw [otherHeld] at isStamp
  cases isStamp
  exact Int.lt_irrefl _ (later stamp held)

/-- Who wins has the later stamp, or the same. -/
theorem outdated_or_same_of_wins {winner other : VaultStore} {key : EntityKey}
    (wins : Wins winner other key) :
    other.Outdated winner key ∨
      ∃ stamp, winner.localStamps key = some stamp ∧ other.localStamps key = some stamp := by
  obtain ⟨knows, upToDate⟩ := wins
  obtain ⟨stamp, held⟩ := (winner.knows_iff_localStamps key).mp knows
  cases otherHeld : other.localStamps key with
  | none =>
    refine .inl ⟨stamp, held, fun otherStamp isStamp => ?_⟩
    rw [otherHeld] at isStamp
    cases isStamp
  | some otherStamp =>
    by_cases same : otherStamp = stamp
    · exact .inr ⟨stamp, held, by rw [same]⟩
    · refine .inl ⟨stamp, held, fun isStamp found => ?_⟩
      rw [otherHeld] at found
      cases found
      by_contra notLater
      refine upToDate ⟨otherStamp, otherHeld, fun own isOwn => ?_⟩
      rw [held] at isOwn
      cases isOwn
      grind

end VaultStore

/-! ### One batch of a plain vault -/

/-- A vault has of an entity what the winner had: its row, or its tombstone. -/
def Holding (gone : List EntityKey) (winner : VaultStore) (key : EntityKey) (vault : VaultStore) :
    Prop :=
  match winner.rowOf key with
  | some row => HoldsRow (row.IsVersion gone (winner.sharesSecrets row)) key vault
  | none => HoldsNone key (winner.deletedAt key) vault

theorem holding_self {winner : VaultStore} (exclusive : winner.Exclusive) (gone : List EntityKey)
    (key : EntityKey) : Holding gone winner key winner := by
  unfold Holding
  cases stored : winner.rowOf key with
  | some row => exact holdsRow_of_rowOf (exclusive key) stored (row.isVersion_refl gone _)
  | none => exact ⟨stored, rfl⟩

/-- Under one stamp, and holding the same, either side has what the other has. -/
theorem holding_of_same {winner other : VaultStore} (exclusive : other.Exclusive)
    (same : SameUnderStamp winner other) (gone : List EntityKey) {key : EntityKey} {stamp : Stamp}
    (held : winner.localStamps key = some stamp) (otherHeld : other.localStamps key = some stamp) :
    Holding gone winner key other := by
  have rows := same key stamp held otherHeld
  unfold Holding
  cases stored : winner.rowOf key with
  | none =>
    rw [stored] at rows
    have noRow : other.rowOf key = none := Option.map_eq_none_iff.mp rows.symm
    refine ⟨noRow, ?_⟩
    rw [VaultStore.localStamps, stored] at held
    rw [VaultStore.localStamps, noRow] at otherHeld
    exact otherHeld.trans held.symm
  | some row =>
    rw [stored, Option.map_some] at rows
    obtain ⟨own, found, shared⟩ := Option.map_eq_some_iff.mp rows.symm
    refine holdsRow_of_rowOf (exclusive key) found ⟨?_, ?_⟩
    · exact Row.agreesUpTo_of_withSecrets (Row.agreesUpTo_of_shared shared gone) fun _ => rfl
    · rw [VaultStore.localStamps, stored] at held
      rw [VaultStore.localStamps, found] at otherHeld
      exact Option.some.inj (otherHeld.trans held.symm)

theorem settled_of_holding {gone : List EntityKey} {winner vault : VaultStore} {key : EntityKey}
    (knows : winner.Knows key) (holding : Holding gone winner key vault) :
    Settled gone winner key vault := by
  unfold Settled
  unfold Holding at holding
  cases stored : winner.rowOf key with
  | some row =>
    rw [stored] at holding
    exact holding
  | none =>
    rw [stored] at holding
    refine ⟨holding.noRow, ?_⟩
    rw [holding.deletedAt]
    exact knows.resolve_left fun present => present stored

section Batch

variable {Bytes : Type} {codec : Codec Bytes} {secret : SharedSecret}
  {source target after winner : VaultStore} {keys gone : List EntityKey} {collectedAt : Stamp}
  {records : List (SyncRecord Bytes)} {now : Nat → Stamp} {key : EntityKey}

/-- A batch of plain entities, carried out without a warning. -/
structure PlainBatch (codec : Codec Bytes) (secret : SharedSecret) (gone : List EntityKey)
    (source target : VaultStore) (keys : List EntityKey) (collectedAt : Stamp)
    (records : List (SyncRecord Bytes)) (now : Nat → Stamp) (after : VaultStore) : Prop where
  plain : ∀ key ∈ keys, key.1 ≠ .knownHost ∧ key.1 ≠ .group
  collected : source.collectRecords codec keys (some secret) collectedAt = .ok records
  applied : applyRecords codec target records (some secret) now = .ok (after, [])
  isGone : ∀ key ∈ keys, source.deletedAt key ≠ none → key ∈ gone

theorem deletedAt_of_isDeleted {record : SyncRecord Bytes}
    (collected : source.collectRecord codec secret collectedAt key = some record)
    (isDeleted : record.isDeleted = true) : source.deletedAt key ≠ none := by
  intro noTombstone
  rw [VaultStore.collectRecord, noTombstone] at collected
  obtain ⟨row, _, rfl⟩ := Option.map_eq_some_iff.mp collected
  cases isDeleted

namespace PlainBatch

variable (batch : PlainBatch codec secret gone source target keys collectedAt records now after)

include batch

/-- Without groups there is nothing to repair. -/
theorem appliedState_eq :
    (appliedState codec secret now target records).vault = after ∧
      (appliedState codec secret now target records).warnings = [] := by
  have noGroup : (records.any fun record => decide (record.entityType = .group)) = false := by
    rw [List.any_eq_false]
    intro record member
    have listed := ((mem_of_collected batch.collected record).mp member).1
    rw [decide_eq_true_eq]
    exact (batch.plain record.key listed).2
  have applied := batch.applied
  simp only [applyRecords, noGroup, Except.ok.injEq, Prod.mk.injEq] at applied
  exact ⟨applied.1, applied.2⟩

theorem spares (key : EntityKey) (endpoint : Option (String × Nat)) :
    Spares codec secret gone key endpoint records where
  isGone record member isDeleted := by
    obtain ⟨listed, isRecord⟩ := (mem_of_collected batch.collected record).mp member
    exact batch.isGone record.key listed (deletedAt_of_isDeleted isRecord isDeleted)
  apart record member _ isLive pin opened := by
    obtain ⟨listed, isRecord⟩ := (mem_of_collected batch.collected record).mp member
    have pinKey := (VaultStore.consistent_collectRecord isRecord isLive _ opened).1
    exact absurd (congrArg Prod.fst pinKey).symm (batch.plain record.key listed).1

theorem holding_unlisted (unlisted : key ∉ keys) (notTaken : ¬ TakenAlong gone winner key)
    (holding : Holding gone winner key target) : Holding gone winner key after := by
  rw [← batch.appliedState_eq.1]
  unfold Holding at holding ⊢
  cases stored : winner.rowOf key with
  | none =>
    rw [stored] at holding
    exact holdsNone_unlisted batch.collected unlisted holding
  | some row =>
    rw [stored] at holding
    have kept : ∀ other ∈ gone, row.orphanedBy other = false := fun other isGone =>
      Bool.eq_false_iff.mpr fun orphan => notTaken ⟨row, stored, other, isGone, orphan⟩
    exact holdsRow_unlisted batch.collected unlisted (followed_isVersion kept _)
      (batch.spares key _) holding

theorem settled_fetched (nodup : keys.Nodup) (listed : key ∈ keys)
    (shares : source.syncPasswords = winner.syncPasswords)
    (notTaken : ¬ TakenAlong gone winner key) (outdated : target.Outdated winner key)
    (holding : Holding gone winner key source) : Settled gone winner key after := by
  obtain ⟨stamp, held, later⟩ := outdated
  obtain ⟨isAfter, quiet⟩ := batch.appliedState_eq
  have carried : ∀ before record, (before, record) ∈ target.turns codec secret now records →
      record.key = key → passes target.localStamps record → Carried codec secret before record :=
    fun _ _ meets _ fresh => carried_of_meets quiet meets fresh
  rw [← isAfter]
  unfold Settled
  unfold Holding at holding
  cases stored : winner.rowOf key with
  | none =>
    rw [stored] at holding
    rw [VaultStore.localStamps, stored] at held
    obtain ⟨index, holds⟩ := holdsNone_fetched batch.collected nodup listed
      (holding.deletedAt.trans held) later carried
    refine ⟨holds.noRow, ?_⟩
    rw [holds.deletedAt]
    exact Option.some_ne_none _
  | some row =>
    rw [stored] at holding
    rw [VaultStore.localStamps, stored] at held
    cases held
    have kept : ∀ other ∈ gone, row.orphanedBy other = false := fun other isGone =>
      Bool.eq_false_iff.mpr fun orphan => notTaken ⟨row, stored, other, isGone, orphan⟩
    refine holdsRow_fetched batch.collected nodup listed holding (followed_isVersion kept _) ?_
      later carried (batch.spares key _)
    intro vault own lastUsed isVersion
    refine Row.isVersion_received (fun isShared => ?_) isVersion vault lastUsed
    simpa [VaultStore.sharesSecrets, shares] using isShared

end PlainBatch

end Batch

/-! ### The session -/

section Session

variable {Bytes : Type} {codec : Codec Bytes} {sharedSecret : Option SharedSecret}
  {clock : SessionClock} {client server : VaultStore} {done : SessionEnd}

theorem knows_of_outdated {vault other : VaultStore} {key : EntityKey}
    (outdated : vault.Outdated other key) : other.Knows key := by
  obtain ⟨stamp, held, _⟩ := outdated
  exact (other.knows_iff_localStamps key).mpr ⟨stamp, held⟩

theorem plainBatches_of_session (plainClient : client.IsPlain) (plainServer : server.IsPlain)
    (ran : runSyncSession codec sharedSecret clock client server = .ok done)
    (clientQuiet : done.clientWarnings = []) (serverQuiet : done.serverWarnings = []) :
    ∃ pulled pushed,
      PlainBatch codec (sharedSecret.getD "") (carriedDeletions client server done) server client
        (neededFromRemote client.buildManifest server.buildManifest) clock.serverCollect pulled
        clock.clientApply done.client ∧
      PlainBatch codec (sharedSecret.getD "") (carriedDeletions client server done) done.client
        server (toPushToRemote client.buildManifest server.buildManifest) clock.clientCollect pushed
        clock.serverApply done.server := by
  obtain ⟨pulled, pushed, pullCollected, pullApplied, pushCollected, pushApplied, _⟩ :=
    runSyncSession_eq_ok ran
  rw [clientQuiet] at pullApplied
  rw [serverQuiet] at pushApplied
  refine ⟨pulled, pushed, ⟨?_, pullCollected, pullApplied, ?_⟩, ⟨?_, pushCollected, pushApplied, ?_⟩⟩
  · intro key listed
    exact plainServer key (knows_of_outdated ((client.mem_neededFromRemote server key).mp listed))
  · intro key listed tombstoned
    refine List.mem_append_left _ (List.mem_filter.mpr ⟨listed, ?_⟩)
    rwa [Option.isSome_iff_ne_none]
  · intro key listed
    exact plainClient key (knows_of_outdated ((client.mem_toPushToRemote server key).mp listed))
  · intro key listed tombstoned
    refine List.mem_append_right _ (List.mem_filter.mpr ⟨listed, ?_⟩)
    rwa [Option.isSome_iff_ne_none]

end Session

/-! ### A later snippet, and a rule that does not outlive its host -/

/-- One snippet, as of a stamp. -/
def oneSnippet (updatedAt : Stamp) (text : String) : VaultStore :=
  (VaultStore.empty false true).saveSnippet ⟨1, updatedAt, text⟩

theorem rowOf_oneSnippet (updatedAt : Stamp) (text : String) (key : EntityKey) :
    (oneSnippet updatedAt text).rowOf key =
      if key = (.snippet, 1) then some (.snippet ⟨1, updatedAt, text⟩) else none :=
  VaultStore.rowOf_replaceRow_of_null _ _ key rfl

theorem deletedAt_oneSnippet (updatedAt : Stamp) (text : String) (key : EntityKey) :
    (oneSnippet updatedAt text).deletedAt key = none := by
  rw [oneSnippet, VaultStore.saveSnippet, VaultStore.deletedAt_replaceRow]
  exact ite_self none

theorem knows_oneSnippet {updatedAt : Stamp} {text : String} {key : EntityKey}
    (knows : (oneSnippet updatedAt text).Knows key) : key = (.snippet, 1) := by
  by_contra other
  refine knows.elim (fun stored => stored ?_) fun tombstoned => tombstoned ?_
  · rw [rowOf_oneSnippet, if_neg other]
  · exact deletedAt_oneSnippet ..

/-- A clock that reads one and the same throughout a session. -/
def SessionClock.still (reading : Stamp) : SessionClock :=
  ⟨reading, fun _ => reading, reading, fun _ => reading⟩

/-- A host has been deleted here. -/
def hostDeleted : VaultStore := (VaultStore.empty false true).deleteConnection 1 10

/-- It is still stored there, and has got a rule. -/
def ruleOfHost : VaultStore :=
  ((VaultStore.empty false true).replaceRow (.connection ⟨1, "host", "host", 22, none, none, none,
    none, [], none, none, none, 5, ""⟩ .unset)).savePortForwardRule ⟨2, "rule", 1, "target", false,
      20, ""⟩

end Oryxis

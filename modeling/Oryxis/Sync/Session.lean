/-
This file is one sync session as its client runs it: ask for the server's
manifest, compare it with the own one, fetch what is newer there, then push what
is newer here.

The comparison is by stamps alone. What it asks for and what it will push are
fixed before anything is transferred, and both are described here by the stamps
the two vaults hold: each side gets exactly the entities of which the other holds
a later stamp, or any where it holds none. The records to push are collected after
the fetched ones have been applied.
-/

import Oryxis.Sync.Apply

namespace Oryxis

/-! ### The comparison -/

inductive SyncAction where
  | acceptRemote
  | pushLocal
  | skip
  deriving DecidableEq, Repr

/-- Last writer wins. -/
def resolve (localEntry remoteEntry : ManifestEntry) : SyncAction :=
  match compare localEntry.updatedAt remoteEntry.updatedAt with
  | .lt => .acceptRemote
  | .gt => .pushLocal
  | .eq => .skip

theorem resolve_eq_acceptRemote (localEntry remoteEntry : ManifestEntry) :
    resolve localEntry remoteEntry = .acceptRemote ↔
      localEntry.updatedAt < remoteEntry.updatedAt := by
  simp only [resolve, compare, compareOfLessAndEq]
  grind

theorem resolve_eq_pushLocal (localEntry remoteEntry : ManifestEntry) :
    resolve localEntry remoteEntry = .pushLocal ↔
      remoteEntry.updatedAt < localEntry.updatedAt := by
  simp only [resolve, compare, compareOfLessAndEq]
  grind

/-- What the comparison makes of one entry of the remote manifest. -/
def actionFor (localManifest : List ManifestEntry) (remoteEntry : ManifestEntry) : SyncAction :=
  match localManifest.find? fun localEntry => localEntry.key = remoteEntry.key with
  | some localEntry => resolve localEntry remoteEntry
  | none => .acceptRemote

/-- What to fetch: what is newer there, and what is not known here. -/
def neededFromRemote (localManifest remoteManifest : List ManifestEntry) : List EntityKey :=
  (remoteManifest.filter fun entry => actionFor localManifest entry = .acceptRemote).map
    ManifestEntry.key

/-- What to push: what is newer here, and what is not known there. -/
def toPushToRemote (localManifest remoteManifest : List ManifestEntry) : List EntityKey :=
  (remoteManifest.filter fun entry => actionFor localManifest entry = .pushLocal).map
      ManifestEntry.key ++
    (localManifest.filter fun entry =>
      !(remoteManifest.map ManifestEntry.key).contains entry.key).map ManifestEntry.key

/-! ### The session -/

/-- The clock readings of a session: one for each collected batch, one for each turn of each
applied one. -/
structure SessionClock where
  serverCollect : Stamp
  clientApply : Nat → Stamp
  clientCollect : Stamp
  serverApply : Nat → Stamp

/-- What a session leaves behind on both sides. -/
structure SessionEnd where
  client : VaultStore
  server : VaultStore
  clientWarnings : List SyncWarning
  serverWarnings : List SyncWarning
  pulled : Nat
  pushed : Nat

variable {Bytes : Type}

/-- Collect on one side, apply on the other. Nothing is sent where nothing is asked for. -/
def transfer (codec : Codec Bytes) (secret : Option SharedSecret) (source target : VaultStore)
    (keys : List EntityKey) (collectedAt : Stamp) (appliedAt : Nat → Stamp) :
    Except SyncError (VaultStore × List SyncWarning × Nat) :=
  if keys.isEmpty then .ok (target, [], 0)
  else do
    let records ← source.collectRecords codec keys secret collectedAt
    let (target, warnings) ← applyRecords codec target records secret appliedAt
    return (target, warnings, records.length)

/-- `run_sync_session_as_client` against `handle_sync_session`, nothing else happening. -/
def runSyncSession (codec : Codec Bytes) (secret : Option SharedSecret) (clock : SessionClock)
    (client server : VaultStore) : Except SyncError SessionEnd := do
  let remoteManifest := server.buildManifest
  let localManifest := client.buildManifest
  let needed := neededFromRemote localManifest remoteManifest
  let toPush := toPushToRemote localManifest remoteManifest
  let (client, clientWarnings, pulled) ←
    transfer codec secret server client needed clock.serverCollect clock.clientApply
  let (server, serverWarnings, pushed) ←
    transfer codec secret client server toPush clock.clientCollect clock.serverApply
  return ⟨client, server, clientWarnings, serverWarnings, pulled, pushed⟩

variable {codec : Codec Bytes} {secret : Option SharedSecret}

theorem transfer_eq_ok {source target after : VaultStore} {keys : List EntityKey}
    {collectedAt : Stamp} {appliedAt : Nat → Stamp} {warnings : List SyncWarning} {count : Nat}
    (done : transfer codec secret source target keys collectedAt appliedAt =
      .ok (after, warnings, count)) :
    ∃ records, source.collectRecords codec keys (some (secret.getD "")) collectedAt = .ok records ∧
      applyRecords codec target records (some (secret.getD "")) appliedAt = .ok (after, warnings) ∧
      count = records.length := by
  unfold transfer at done
  split at done
  · rename_i nothing
    rw [List.isEmpty_iff.mp nothing]
    cases done
    exact ⟨[], rfl, rfl, rfl⟩
  · cases secret with
    | none => cases done
    | some secret =>
      cases done
      exact ⟨_, rfl, rfl, rfl⟩

/-- A session that ends well is two batches, the second collected after the first is applied. -/
theorem runSyncSession_eq_ok {clock : SessionClock} {client server : VaultStore} {done : SessionEnd}
    (ran : runSyncSession codec secret clock client server = .ok done) :
    ∃ pulled pushed,
      server.collectRecords codec (neededFromRemote client.buildManifest server.buildManifest)
        (some (secret.getD "")) clock.serverCollect = .ok pulled ∧
      applyRecords codec client pulled (some (secret.getD "")) clock.clientApply =
        .ok (done.client, done.clientWarnings) ∧
      done.client.collectRecords codec (toPushToRemote client.buildManifest server.buildManifest)
        (some (secret.getD "")) clock.clientCollect = .ok pushed ∧
      applyRecords codec server pushed (some (secret.getD "")) clock.serverApply =
        .ok (done.server, done.serverWarnings) ∧
      done.pulled = pulled.length ∧ done.pushed = pushed.length := by
  unfold runSyncSession at ran
  simp only at ran
  cases pull : transfer codec secret server client
      (neededFromRemote client.buildManifest server.buildManifest) clock.serverCollect
      clock.clientApply with
  | error error =>
    rw [pull] at ran
    cases ran
  | ok fetched =>
    obtain ⟨clientAfter, clientWarnings, pulledCount⟩ := fetched
    cases push : transfer codec secret clientAfter server
        (toPushToRemote client.buildManifest server.buildManifest) clock.clientCollect
        clock.serverApply with
    | error error =>
      simp only [pull, bind, Except.bind, push] at ran
      cases ran
    | ok sent =>
      obtain ⟨serverAfter, serverWarnings, pushedCount⟩ := sent
      simp only [pull, bind, Except.bind, push, pure, Except.pure, Except.ok.injEq] at ran
      subst ran
      obtain ⟨pulled, pullCollected, pullApplied, pullCount⟩ := transfer_eq_ok pull
      obtain ⟨pushed, pushCollected, pushApplied, pushCount⟩ := transfer_eq_ok push
      exact ⟨pulled, pushed, pullCollected, pullApplied, pushCollected, pushApplied, pullCount,
        pushCount⟩

/-! ### What is fetched and what is pushed -/

namespace VaultStore

/-- The other vault holds a later stamp for an entity, or the first. -/
def Outdated (vault other : VaultStore) (key : EntityKey) : Prop :=
  ∃ stamp, other.localStamps key = some stamp ∧
    ∀ localStamp, vault.localStamps key = some localStamp → localStamp < stamp

/-- The manifest announces the stamp the vault holds. -/
theorem updatedAt_manifestEntry (vault : VaultStore) (key : EntityKey) :
    (vault.manifestEntry key).map ManifestEntry.updatedAt = vault.localStamps key := by
  unfold manifestEntry localStamps
  cases vault.rowOf key with
  | some row => rfl
  | none => cases vault.deletedAt key <;> rfl

theorem actionFor_buildManifest (vault : VaultStore) (entry : ManifestEntry) :
    actionFor vault.buildManifest entry =
      match vault.manifestEntry entry.key with
      | some localEntry => resolve localEntry entry
      | none => .acceptRemote := by
  rw [actionFor, find?_buildManifest]

theorem mem_neededFromRemote (vault other : VaultStore) (key : EntityKey) :
    key ∈ neededFromRemote vault.buildManifest other.buildManifest ↔ vault.Outdated other key := by
  unfold Outdated neededFromRemote
  rw [List.mem_map]
  simp only [List.mem_filter, mem_buildManifest, decide_eq_true_eq, actionFor_buildManifest]
  rw [← updatedAt_manifestEntry, ← updatedAt_manifestEntry]
  constructor
  · rintro ⟨entry, ⟨announced, accepted⟩, rfl⟩
    refine ⟨entry.updatedAt, by rw [announced]; rfl, fun localStamp localAnnounced => ?_⟩
    obtain ⟨localEntry, found, rfl⟩ := Option.map_eq_some_iff.mp localAnnounced
    rw [found] at accepted
    exact (resolve_eq_acceptRemote localEntry entry).mp accepted
  · rintro ⟨stamp, announced, later⟩
    obtain ⟨entry, found, rfl⟩ := Option.map_eq_some_iff.mp announced
    have sameKey := key_of_manifestEntry found
    subst sameKey
    refine ⟨entry, ⟨found, ?_⟩, rfl⟩
    cases localFound : vault.manifestEntry entry.key with
    | none => rfl
    | some localEntry =>
      exact (resolve_eq_acceptRemote localEntry entry).mpr
        (later localEntry.updatedAt (by rw [localFound]; rfl))

theorem mem_toPushToRemote (vault other : VaultStore) (key : EntityKey) :
    key ∈ toPushToRemote vault.buildManifest other.buildManifest ↔ other.Outdated vault key := by
  have announcedKey : ∀ key : EntityKey,
      (other.buildManifest.map ManifestEntry.key).contains key = true ↔
        other.manifestEntry key ≠ none := by
    intro key
    rw [List.contains_iff_mem, List.mem_map]
    constructor
    · rintro ⟨entry, member, rfl⟩
      rw [(other.mem_buildManifest entry).mp member]
      exact Option.some_ne_none entry
    · intro announced
      obtain ⟨entry, found⟩ := Option.ne_none_iff_exists'.mp announced
      have sameKey := key_of_manifestEntry found
      exact ⟨entry, (other.mem_buildManifest entry).mpr (sameKey ▸ found), sameKey⟩
  unfold Outdated toPushToRemote
  rw [List.mem_append, List.mem_map, List.mem_map]
  simp only [List.mem_filter, mem_buildManifest, decide_eq_true_eq, actionFor_buildManifest]
  rw [← updatedAt_manifestEntry, ← updatedAt_manifestEntry]
  constructor
  · rintro (⟨entry, ⟨announced, pushed⟩, rfl⟩ | ⟨localEntry, ⟨found, unknown⟩, rfl⟩)
    · cases found : vault.manifestEntry entry.key with
      | none => simp [found] at pushed
      | some localEntry =>
        rw [found] at pushed
        refine ⟨localEntry.updatedAt, rfl, fun stamp isStamp => ?_⟩
        rw [announced] at isStamp
        cases isStamp
        exact (resolve_eq_pushLocal localEntry entry).mp pushed
    · refine ⟨localEntry.updatedAt, by rw [found]; rfl, fun stamp isStamp => ?_⟩
      have noEntry : other.manifestEntry localEntry.key = none := by
        by_contra announced
        rw [(announcedKey _).mpr announced] at unknown
        cases unknown
      rw [noEntry] at isStamp
      cases isStamp
  · rintro ⟨stamp, announced, later⟩
    obtain ⟨localEntry, found, rfl⟩ := Option.map_eq_some_iff.mp announced
    have sameKey := key_of_manifestEntry found
    subst sameKey
    cases remote : other.manifestEntry localEntry.key with
    | none =>
      refine .inr ⟨localEntry, ⟨found, ?_⟩, rfl⟩
      rw [Bool.not_eq_true', Bool.eq_false_iff, Ne, announcedKey]
      exact fun announced => announced remote
    | some entry =>
      have remoteKey := key_of_manifestEntry remote
      refine .inl ⟨entry, ⟨by rw [remoteKey]; exact remote, ?_⟩, remoteKey⟩
      rw [remoteKey, found]
      exact (resolve_eq_pushLocal localEntry entry).mpr
        (later entry.updatedAt (by rw [remote]; rfl))

end VaultStore

end Oryxis

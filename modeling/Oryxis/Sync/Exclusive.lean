/-
This file is about the bookkeeping of deletions: an entity is a live row or a
tombstone and never both, and a row that disappears leaves a tombstone behind.

The first half holds of every run. A save clears the tombstone of the row it
stores and a delete records one for every row it removes, so the two code paths
that describe a vault to a peer -- the manifest prefers the live row, the record
collection looks at the tombstones first -- describe every entity the same way.

The second half does not. `known_hosts` is unique on hostname and port while the
pins a save deletes by hand are those of the same KEY TYPE as well, so a pin of
another key type on the same hostname and port goes with the `INSERT OR REPLACE`
and leaves nothing. That is the only way: in a run where no saved pin meets a pin
of another key type at its hostname and port, what was once stored is stored or
tombstoned for good.
-/

import Oryxis.Sync.GroupRepair
import Oryxis.Sync.Turns

namespace Oryxis

open Library

namespace VaultStore

/-! ### The two halves of the bookkeeping -/

/-- No entity is both a live row and a tombstone. -/
def Exclusive (vault : VaultStore) : Prop :=
  ∀ key, vault.rowOf key = none ∨ vault.deletedAt key = none

/-- A vault knows an entity that is stored or tombstoned. -/
def Knows (vault : VaultStore) (key : EntityKey) : Prop :=
  vault.rowOf key ≠ none ∨ vault.deletedAt key ≠ none

/-- Another key type is pinned on the hostname and port of a pin. -/
def Clashes (vault : VaultStore) (pin : KnownHost) : Prop :=
  ∃ other ∈ vault.listKnownHosts, other.id ≠ pin.id ∧ other.hostname = pin.hostname ∧
    other.port = pin.port ∧ other.keyType ≠ pin.keyType

/-- A row that can be saved without a pin of another key type standing in its way. -/
def Unobstructed (vault : VaultStore) (row : Row) : Prop :=
  ∀ pin, row = .knownHost pin → ¬ vault.Clashes pin

instance (vault : VaultStore) (pin : KnownHost) : Decidable (vault.Clashes pin) :=
  inferInstanceAs (Decidable (∃ other ∈ vault.listKnownHosts, other.id ≠ pin.id ∧
    other.hostname = pin.hostname ∧ other.port = pin.port ∧ other.keyType ≠ pin.keyType))

section Saves

variable {vault after : VaultStore} {row : Row} {now : Stamp}

theorem exclusive_of_saves (exclusive : vault.Exclusive) (effect : vault.Saves row now after) :
    after.Exclusive := by
  intro key
  rw [effect.rowOf, effect.deletedAt]
  by_cases here : key = row.key
  · simp [here]
  · rw [if_neg here, if_neg here]
    cases found : vault.rowOf key with
    | none =>
      left
      rfl
    | some other =>
      have noTombstone : vault.deletedAt key = none :=
        (exclusive key).resolve_left (found ▸ Option.some_ne_none _)
      cases stale : row.staleFor other with
      | true =>
        left
        rw [Option.filter_some, displaces_of_staleFor stale]
        rfl
      | false =>
        right
        rw [Option.any_some, stale]
        exact noTombstone

/-- A displaced row is a stale pin, unless it stands in the way with another key type. -/
theorem staleFor_of_displaces (unobstructed : vault.Unobstructed row) {other : Row}
    (found : vault.rowOf other.key = some other) (different : other.key ≠ row.key)
    (displaced : Table.displaces Row.key Row.endpoint row other = true) :
    row.staleFor other = true := by
  cases other with
  | knownHost stored =>
    cases row with
    | knownHost pin =>
      have sameEndpoint : stored.hostname = pin.hostname ∧ stored.port = pin.port := by
        simpa [Table.displaces, different, Row.endpoint] using displaced
      have otherId : stored.id ≠ pin.id := fun same => different (congrArg (Prod.mk _) same)
      by_cases sameType : stored.keyType = pin.keyType
      · simp [Row.staleFor, sameEndpoint, sameType, otherId]
      · exact absurd ⟨stored, (vault.mem_listKnownHosts stored).mpr found, otherId,
          sameEndpoint.1, sameEndpoint.2, sameType⟩ (unobstructed pin rfl)
    | _ => simp [Table.displaces, different, Row.endpoint] at displaced
  | _ => simp [Table.displaces, different, Row.endpoint] at displaced

theorem knows_of_saves (unobstructed : vault.Unobstructed row)
    (effect : vault.Saves row now after) {key : EntityKey} (knows : vault.Knows key) :
    after.Knows key := by
  unfold Knows
  rw [effect.rowOf, effect.deletedAt]
  by_cases here : key = row.key
  · simp [here]
  · rw [if_neg here, if_neg here]
    cases found : vault.rowOf key with
    | none =>
      right
      rcases knows with stored | tombstoned
      · exact absurd found stored
      · exact tombstoned
    | some other =>
      have otherKey : other.key = key := key_of_rowOf found
      cases displaced : Table.displaces Row.key Row.endpoint row other with
      | false =>
        left
        rw [Option.filter_some, displaced]
        simp
      | true =>
        right
        subst otherKey
        rw [Option.any_some, staleFor_of_displaces unobstructed found here displaced]
        simp

end Saves

section Deletes

variable {vault after : VaultStore} {gone : EntityKey} {now : Stamp}

theorem exclusive_of_deletes (exclusive : vault.Exclusive)
    (effect : vault.Deletes gone now after) : after.Exclusive := by
  intro key
  rw [effect.rowOf, effect.deletedAt]
  by_cases here : key = gone
  · simp [here]
  · rw [if_neg here]
    cases found : vault.rowOf key with
    | none => simp
    | some row =>
      have noTombstone : vault.deletedAt key = none :=
        (exclusive key).resolve_left (found ▸ Option.some_ne_none _)
      cases orphan : row.orphanedBy gone with
      | true => simp [Option.filter_some, orphan]
      | false =>
        right
        simp [here, orphan, noTombstone]

theorem knows_of_deletes (effect : vault.Deletes gone now after) {key : EntityKey}
    (knows : vault.Knows key) : after.Knows key := by
  unfold Knows
  rw [effect.rowOf, effect.deletedAt]
  by_cases here : key = gone
  · simp [here]
  · rw [if_neg here]
    cases found : vault.rowOf key with
    | none =>
      right
      rcases knows with stored | tombstoned
      · exact absurd found stored
      · simpa [here] using tombstoned
    | some row =>
      cases orphan : row.orphanedBy gone with
      | true => simp [orphan]
      | false => simp [Option.filter_some, orphan]

end Deletes

/-! ### The two descriptions of a vault -/

/-- The manifest looks at the live row first and the record collection at the tombstone; where
no entity is both, they say the same. -/
theorem entry_collectRecord {Bytes : Type} (codec : Codec Bytes) (secret : SharedSecret)
    (now : Stamp) {vault : VaultStore} (exclusive : vault.Exclusive) (key : EntityKey) :
    (vault.collectRecord codec secret now key).map SyncRecord.entry = vault.manifestEntry key := by
  unfold collectRecord manifestEntry
  rcases exclusive key with noRow | noTombstone
  · rw [noRow]
    cases vault.deletedAt key <;> rfl
  · rw [noTombstone]
    cases found : vault.rowOf key <;> simp [SyncRecord.entry, localStamps, found]

end VaultStore

/-! ### One batch -/

section Batch

variable {Bytes : Type} {codec : Codec Bytes} {secret : SharedSecret}
  {localStamps : EntityKey → Option Stamp} {now : Stamp} {state after : ApplyState}
  {record : SyncRecord Bytes}

/-- The pin a record would save meets no pin of another key type in its turn. -/
def RecordUnobstructed (codec : Codec Bytes) (secret : SharedSecret)
    (localStamps : EntityKey → Option Stamp) (state : ApplyState) (record : SyncRecord Bytes) :
    Prop :=
  passes localStamps record → record.isDeleted = false → ∀ pin,
    codec.openPayload secret record = some (.knownHost pin) → ¬ state.vault.Clashes pin

theorem exclusive_of_sameEntities {vault other : VaultStore} (exclusive : vault.Exclusive)
    (same : vault.SameEntities other) : other.Exclusive := by
  intro key
  rw [same.rowOf, same.deletedAt]
  exact exclusive key

theorem exclusive_of_turn (exclusive : state.vault.Exclusive)
    (turn : TurnOutcome codec secret localStamps now state record after) :
    after.vault.Exclusive := by
  cases turn with
  | stale held same => exact same ▸ exclusive
  | deleted fresh isDeleted effect => exact VaultStore.exclusive_of_deletes exclusive effect
  | deleteRefused fresh isDeleted isGroup inUse same => exact same ▸ exclusive
  | unreadable fresh isLive closed warning same => exact same ▸ exclusive
  | payload fresh isLive payload opened outcome =>
    cases outcome with
    | saved effect => exact VaultStore.exclusive_of_saves exclusive effect
    | keyChangeRefused pin isPin replaces same => exact exclusive_of_sameEntities exclusive same
    | saveRefused host _ _ _ _ isHost misses rowOf deletedAt =>
      intro key
      rw [rowOf, deletedAt, Option.map_eq_none_iff]
      exact exclusive key

variable {key : EntityKey}

theorem knows_of_turn (unobstructed : RecordUnobstructed codec secret localStamps state record)
    (turn : TurnOutcome codec secret localStamps now state record after)
    (knows : state.vault.Knows key) : after.vault.Knows key := by
  cases turn with
  | stale held same => exact same ▸ knows
  | deleted fresh isDeleted effect => exact VaultStore.knows_of_deletes effect knows
  | deleteRefused fresh isDeleted isGroup inUse same => exact same ▸ knows
  | unreadable fresh isLive closed warning same => exact same ▸ knows
  | payload fresh isLive payload opened outcome =>
    cases outcome with
    | saved effect =>
      refine VaultStore.knows_of_saves (fun pin isPin => ?_) effect knows
      cases payload with
      | knownHost entity =>
        cases isPin
        exact unobstructed fresh isLive pin opened
      | _ => cases isPin
    | keyChangeRefused pin isPin replaces same =>
      unfold VaultStore.Knows
      rw [same.rowOf, same.deletedAt]
      exact knows
    | saveRefused host _ _ _ _ isHost misses rowOf deletedAt =>
      unfold VaultStore.Knows
      rw [rowOf, deletedAt, Ne, Option.map_eq_none_iff]
      exact knows

/-- No pin of a batch meets a pin of another key type. -/
def BatchUnobstructed (codec : Codec Bytes) (secret : SharedSecret) (now : Nat → Stamp)
    (vault : VaultStore) (records : List (SyncRecord Bytes)) : Prop :=
  ∀ meeting ∈ meetings codec secret vault.localStamps now 0 ⟨vault, none, []⟩ records,
    RecordUnobstructed codec secret vault.localStamps meeting.1 meeting.2

variable {records : List (SyncRecord Bytes)} {warnings : List SyncWarning}

theorem exclusive_applyRecords (codec : Codec Bytes) {vault after : VaultStore}
    {sharedSecret : Option SharedSecret} {now : Nat → Stamp} (exclusive : vault.Exclusive)
    (applied : applyRecords codec vault records sharedSecret now = .ok (after, warnings)) :
    after.Exclusive := by
  cases sharedSecret with
  | none => cases applied
  | some secret =>
    have loop : (appliedState codec secret now vault records).vault.Exclusive :=
      applyLoop_invariant codec secret _ now (fun state => state.vault.Exclusive) 0 _ records
        (fun _ _ _ before reading => exclusive_of_turn before
          (turnOutcome_applyRecord codec secret _ (now reading) _ _)) exclusive
    simp only [applyRecords, Except.ok.injEq, Prod.mk.injEq] at applied
    rw [← applied.1]
    split
    · exact VaultStore.breakGroupCycles_invariant _
        (fun _ _ _ before effect => VaultStore.exclusive_of_saves before effect) loop
    · exact loop

theorem knows_applyRecords (codec : Codec Bytes) {vault after : VaultStore} {secret : SharedSecret}
    {now : Nat → Stamp} (unobstructed : BatchUnobstructed codec secret now vault records)
    (applied : applyRecords codec vault records (some secret) now = .ok (after, warnings))
    (knows : vault.Knows key) : after.Knows key := by
  have loop : (appliedState codec secret now vault records).vault.Knows key :=
    applyLoop_invariant codec secret _ now (fun state => state.vault.Knows key) 0 _ records
      (fun before record member knows reading => knows_of_turn (unobstructed _ member)
        (turnOutcome_applyRecord codec secret _ (now reading) before record) knows) knows
  simp only [applyRecords, Except.ok.injEq, Prod.mk.injEq] at applied
  rw [← applied.1]
  split
  · refine VaultStore.breakGroupCycles_invariant (fun vault => vault.Knows key) ?_ loop
    exact fun _ _ _ before effect =>
      VaultStore.knows_of_saves (fun _ isPin => by cases isPin) effect before
  · exact loop

end Batch

/-! ### Runs of a vault -/

section Runs

variable {Bytes : Type}

/-- What happens to a vault: its own saves and deletes, and the batches of its peers. -/
inductive VaultOperation (Bytes : Type) where
  | save (entity : EntitySave) (now : Stamp)
  | delete (key : EntityKey) (now : Stamp)
  | applyRecords (records : List (SyncRecord Bytes)) (sharedSecret : Option SharedSecret)
      (now : Nat → Stamp)

/-- A refused operation leaves the vault as it was. -/
def VaultStore.perform (codec : Codec Bytes) (vault : VaultStore) :
    VaultOperation Bytes → VaultStore
  | .save entity now => (vault.saveEntity now entity).toOption.getD vault
  | .delete key now => (vault.deleteEntity key now).toOption.getD vault
  | .applyRecords records sharedSecret now =>
    ((applyRecords codec vault records sharedSecret now).toOption.map Prod.fst).getD vault

def VaultStore.performAll (codec : Codec Bytes) (vault : VaultStore)
    (operations : List (VaultOperation Bytes)) : VaultStore :=
  operations.foldl (VaultStore.perform codec) vault

/-- No pin an operation saves meets a pin of another key type at its hostname and port. -/
def OperationUnobstructed (codec : Codec Bytes) (vault : VaultStore) :
    VaultOperation Bytes → Prop
  | .save entity _ => ∀ pin, entity = .knownHost pin → ¬ vault.Clashes pin
  | .delete _ _ => True
  | .applyRecords records sharedSecret now =>
    ∀ secret, sharedSecret = some secret → BatchUnobstructed codec secret now vault records

/-- The same of every operation of a run. -/
def RunUnobstructed (codec : Codec Bytes) : VaultStore → List (VaultOperation Bytes) → Prop
  | _, [] => True
  | vault, operation :: operations =>
    OperationUnobstructed codec vault operation ∧
      RunUnobstructed codec (vault.perform codec operation) operations

variable {codec : Codec Bytes}

theorem exclusive_perform {vault : VaultStore} (exclusive : vault.Exclusive)
    (operation : VaultOperation Bytes) : (vault.perform codec operation).Exclusive := by
  cases operation with
  | save entity now =>
    simp only [VaultStore.perform]
    cases done : vault.saveEntity now entity with
    | error error => exact exclusive
    | ok after => exact VaultStore.exclusive_of_saves exclusive (VaultStore.saves_saveEntity done)
  | delete key now =>
    simp only [VaultStore.perform]
    cases done : vault.deleteEntity key now with
    | error error => exact exclusive
    | ok after =>
      exact VaultStore.exclusive_of_deletes exclusive (VaultStore.deletes_deleteEntity done)
  | applyRecords records sharedSecret now =>
    simp only [VaultStore.perform]
    cases done : applyRecords codec vault records sharedSecret now with
    | error error => exact exclusive
    | ok outcome => exact exclusive_applyRecords codec exclusive done

variable {key : EntityKey}

theorem knows_perform {vault : VaultStore} {operation : VaultOperation Bytes}
    (unobstructed : OperationUnobstructed codec vault operation) (knows : vault.Knows key) :
    (vault.perform codec operation).Knows key := by
  cases operation with
  | save entity now =>
    simp only [VaultStore.perform]
    cases done : vault.saveEntity now entity with
    | error error => exact knows
    | ok after =>
      refine VaultStore.knows_of_saves (fun pin isPin => ?_) (VaultStore.saves_saveEntity done)
        knows
      cases entity with
      | knownHost saved =>
        cases isPin
        exact unobstructed pin rfl
      | _ => cases isPin
  | delete key now =>
    simp only [VaultStore.perform]
    cases done : vault.deleteEntity key now with
    | error error => exact knows
    | ok after => exact VaultStore.knows_of_deletes (VaultStore.deletes_deleteEntity done) knows
  | applyRecords records sharedSecret now =>
    simp only [VaultStore.perform]
    cases done : applyRecords codec vault records sharedSecret now with
    | error error => exact knows
    | ok outcome =>
      cases sharedSecret with
      | none => cases done
      | some secret => exact knows_applyRecords codec (unobstructed secret rfl) done knows

theorem performAll_append (vault : VaultStore) (earlier later : List (VaultOperation Bytes)) :
    vault.performAll codec (earlier ++ later) =
      (vault.performAll codec earlier).performAll codec later :=
  List.foldl_append

theorem exclusive_performAll (codec : Codec Bytes) {vault : VaultStore}
    (exclusive : vault.Exclusive) (operations : List (VaultOperation Bytes)) :
    (vault.performAll codec operations).Exclusive := by
  induction operations generalizing vault with
  | nil => exact exclusive
  | cons operation operations inductionHypothesis =>
    exact inductionHypothesis (exclusive_perform exclusive operation)

theorem knows_performAll {vault : VaultStore} {operations : List (VaultOperation Bytes)}
    (unobstructed : RunUnobstructed codec vault operations) (knows : vault.Knows key) :
    (vault.performAll codec operations).Knows key := by
  induction operations generalizing vault with
  | nil => exact knows
  | cons operation operations inductionHypothesis =>
    exact inductionHypothesis unobstructed.2 (knows_perform unobstructed.1 knows)

theorem runUnobstructed_append {vault : VaultStore} {earlier later : List (VaultOperation Bytes)}
    (unobstructed : RunUnobstructed codec vault (earlier ++ later)) :
    RunUnobstructed codec (vault.performAll codec earlier) later := by
  induction earlier generalizing vault with
  | nil => exact unobstructed
  | cons operation earlier inductionHypothesis => exact inductionHypothesis unobstructed.2

/-- What a manifest announces of the requested entities is what the collected records say. -/
def VaultStore.DescribesAlike (codec : Codec Bytes) (vault : VaultStore) : Prop :=
  ∀ needed secret now,
    (vault.collectRecords codec needed (some secret) now).map (List.map SyncRecord.entry) =
      .ok (needed.filterMap fun key => vault.buildManifest.find? fun entry => entry.key = key)

theorem describesAlike_of_exclusive {vault : VaultStore} (exclusive : vault.Exclusive) :
    vault.DescribesAlike codec := by
  intro needed secret now
  simp only [VaultStore.collectRecords, Except.map, VaultStore.find?_buildManifest]
  rw [List.map_filterMap]
  simp only [VaultStore.entry_collectRecord codec secret now exclusive]

/-- What was stored in some earlier state of a run is stored or tombstoned at its end. -/
def LeavesTombstones (codec : Codec Bytes) (fresh : VaultStore)
    (operations : List (VaultOperation Bytes)) : Prop :=
  ∀ earlier later, operations = earlier ++ later → ∀ key,
    (fresh.performAll codec earlier).rowOf key ≠ none →
      (fresh.performAll codec operations).rowOf key ≠ none ∨
        (fresh.performAll codec operations).deletedAt key ≠ none

/-- In a run in which no saved pin meets a pin of another key type at its hostname and port, no
entity is live and tombstoned, what was stored in any earlier state is stored or tombstoned now,
and the manifest and the collected records describe every entity alike. -/
theorem bookkeeping_of_run (codec : Codec Bytes) (syncPasswords foreignKeys : Bool)
    (operations : List (VaultOperation Bytes))
    (unobstructed : RunUnobstructed codec (.empty syncPasswords foreignKeys) operations) :
    ((VaultStore.empty syncPasswords foreignKeys).performAll codec operations).Exclusive ∧
      LeavesTombstones codec (.empty syncPasswords foreignKeys) operations ∧
      ((VaultStore.empty syncPasswords foreignKeys).performAll codec operations).DescribesAlike
        codec := by
  have exclusive := exclusive_performAll codec
    (fun _ => .inl rfl : (VaultStore.empty syncPasswords foreignKeys).Exclusive) operations
  refine ⟨exclusive, ?_, describesAlike_of_exclusive exclusive⟩
  rintro earlier later rfl key stored
  rw [performAll_append]
  exact knows_performAll (runUnobstructed_append unobstructed) (.inl stored)

/-- A pin, and the deletion of the pin by a peer. -/
def pinnedAndDeleted : List (VaultOperation WireTerm) :=
  [.save (.knownHost ⟨1, "host", 22, "ssh-ed25519", "print", 10, ""⟩) 10,
    .applyRecords [⟨.knownHost, 1, 20, true, .nothing⟩] (some "secret") fun _ => 30]

theorem bookkeeping_of_pinnedAndDeleted :
    RunUnobstructed Codec.symbolic (.empty false true) pinnedAndDeleted ∧
      LeavesTombstones Codec.symbolic (.empty false true) pinnedAndDeleted := by
  have unobstructed :
      RunUnobstructed Codec.symbolic (.empty false true) pinnedAndDeleted := by
    refine ⟨fun pin isPin => by cases isPin; decide, fun secret isSecret meeting member => ?_,
      trivial⟩
    rw [List.mem_singleton.mp member]
    exact fun fresh isLive => by cases isLive
  exact ⟨unobstructed,
    (bookkeeping_of_run Codec.symbolic false true pinnedAndDeleted unobstructed).2.1⟩

/-- Two pins of one hostname and port, of two key types. -/
def twoKeyTypes : List (VaultOperation WireTerm) :=
  [.save (.knownHost ⟨1, "host", 22, "ssh-ed25519", "print", 10, ""⟩) 10,
    .save (.knownHost ⟨2, "host", 22, "ssh-rsa", "other print", 20, ""⟩) 20]

/-- The second pin displaces the first, and no tombstone stands for it. -/
theorem not_leavesTombstones_twoKeyTypes :
    ¬ LeavesTombstones Codec.symbolic (.empty false true) twoKeyTypes := by
  intro leaves
  have first := leaves (twoKeyTypes.take 1) (twoKeyTypes.drop 1) rfl (.knownHost, 1) (by decide)
  exact absurd first (by decide)

end Runs

end Oryxis

/-
This file is about private keys in batches without deletions.

A batch can replace a private key but never clear one: an absent key keeps the
stored one, and the empty text that would clear it is filtered before the save. So
a key that has a private key keeps having one, whatever the batches carry, and
what it has after a batch is the last one that was offered for it.

That the offer is newer is another matter. The gate compares the stamp of the
header, and what is saved is the key the payload names; an offer for a key the
header does not name has been compared with nothing. Where every header names the
key its payload carries, the private keys move forward.
-/

import Oryxis.Library.Machine
import Oryxis.Sync.GroupRepair
import Oryxis.Sync.Turns

namespace Oryxis

open Library List

/-- The private key a payload has for the key `id`. -/
def SyncPayload.privateKeyOf (id : Uuid) : SyncPayload → Option String
  | .sshKey entity privateKey =>
    if entity.id = id then privateKey.filter fun pem => pem != "" else none
  | _ => none

variable {payload : SyncPayload}

theorem SyncPayload.privateKeyOf_of_key_ne {id : Uuid} (different : payload.key ≠ (.sshKey, id)) :
    payload.privateKeyOf id = none := by
  cases payload with
  | sshKey entity privateKey =>
    exact if_neg fun same => different (congrArg (Prod.mk EntityType.sshKey) same)
  | _ => rfl

theorem SyncPayload.of_privateKeyOf {id : Uuid} {pem : String}
    (found : payload.privateKeyOf id = some pem) : payload.key = (.sshKey, id) ∧ pem ≠ "" := by
  cases payload with
  | sshKey entity privateKey =>
    simp only [privateKeyOf, Option.ite_none_right_eq_some, Option.filter_eq_some_iff,
      bne_iff_ne] at found
    obtain ⟨rfl, rfl, nonempty⟩ := found
    exact ⟨rfl, nonempty⟩
  | _ => cases found

section Batch

variable {Bytes : Type}

/-- The private key a record brings for the key `id`, once it is past the gate. -/
def offeredKey (codec : Codec Bytes) (secret : SharedSecret)
    (localStamps : EntityKey → Option Stamp) (id : Uuid) (record : SyncRecord Bytes) :
    Option String :=
  if (localStamps record.key).any fun localStamp => record.updatedAt ≤ localStamp then none
  else (codec.openPayload secret record).bind (SyncPayload.privateKeyOf id)

/-- The last private key a batch brings for the key `id`. -/
def lastOffered (codec : Codec Bytes) (secret : SharedSecret)
    (localStamps : EntityKey → Option Stamp) (id : Uuid) (records : List (SyncRecord Bytes)) :
    Option String :=
  (records.filterMap (offeredKey codec secret localStamps id)).getLast?

variable {codec : Codec Bytes} {secret : SharedSecret} {localStamps : EntityKey → Option Stamp}
  {id : Uuid} {record : SyncRecord Bytes}

/-! ### What is offered -/

theorem offeredKey_of_not_passes (held : ¬ passes localStamps record) :
    offeredKey codec secret localStamps id record = none := by
  rw [passes_iff, Bool.not_eq_false] at held
  exact if_pos held

theorem offeredKey_of_passes (fresh : passes localStamps record) :
    offeredKey codec secret localStamps id record =
      (codec.openPayload secret record).bind (SyncPayload.privateKeyOf id) := by
  rw [passes_iff] at fresh
  rw [offeredKey, fresh]
  rfl

variable {pem : String}

/-- What is offered comes from a payload past the gate, and is not empty. -/
theorem of_offeredKey (offered : offeredKey codec secret localStamps id record = some pem) :
    passes localStamps record ∧ pem ≠ "" ∧
      ∃ payload, codec.openPayload secret record = some payload ∧ payload.key = (.sshKey, id) := by
  have fresh : passes localStamps record := by
    by_contra held
    rw [offeredKey_of_not_passes held] at offered
    cases offered
  rw [offeredKey_of_passes fresh] at offered
  obtain ⟨payload, opened, found⟩ := Option.bind_eq_some_iff.mp offered
  obtain ⟨own, nonempty⟩ := SyncPayload.of_privateKeyOf found
  exact ⟨fresh, nonempty, payload, opened, own⟩

/-! ### What a turn and a batch leave -/

variable {vault : VaultStore}

theorem getKeyPrivate_eq {other : VaultStore}
    (same : other.rowOf (.sshKey, id) = vault.rowOf (.sshKey, id)) :
    other.getKeyPrivate id = vault.getKeyPrivate id := by
  simp only [VaultStore.getKeyPrivate, VaultStore.secretOf, same]

theorem secretColumn_filter (argument stored : Option String) :
    VaultStore.secretColumn (argument.filter fun pem => pem != "") stored =
      (argument.filter fun pem => pem != "").or stored := by
  cases argument with
  | none => rfl
  | some pem => by_cases empty : pem = "" <;> simp [VaultStore.secretColumn, Option.filter_some, empty]

/-- The save of a key's own payload leaves the private key it brings, else the stored one. -/
theorem getKeyPrivate_of_saves {saved : VaultStore} {lastUsed : Option Stamp} {now : Stamp}
    {payload : SyncPayload} (effect : vault.Saves (vault.received lastUsed payload) now saved)
    (own : payload.key = (.sshKey, id)) :
    saved.getKeyPrivate id = (payload.privateKeyOf id).or (vault.getKeyPrivate id) := by
  cases payload with
  | sshKey entity privateKey =>
    have sameId : entity.id = id := congrArg Prod.snd own
    subst sameId
    have stored : saved.rowOf (.sshKey, entity.id) = _ := effect.rowOf_self
    have column : saved.getKeyPrivate entity.id = VaultStore.secretColumn
        (privateKey.filter fun pem => pem != "") (vault.getKeyPrivate entity.id) := by
      rw [VaultStore.getKeyPrivate, VaultStore.secretOf, stored]
      rfl
    rw [column, secretColumn_filter, SyncPayload.privateKeyOf, if_pos rfl]
  | _ => exact absurd (congrArg Prod.fst own) (by simp [SyncPayload.key, SyncPayload.entityType])

/-- A turn that deletes nothing leaves the private key it was offered, else the stored one. -/
theorem getKeyPrivate_applyRecord (now : Stamp) (state : ApplyState)
    (isLive : record.isDeleted = false) :
    (applyRecord codec secret localStamps now state record).vault.getKeyPrivate id =
      (offeredKey codec secret localStamps id record).or (state.vault.getKeyPrivate id) := by
  rcases turnOutcome_applyRecord codec secret localStamps now state record with
    ⟨held, same⟩ | ⟨_, isDeleted, _, _, _⟩ | ⟨_, isDeleted, _, _, _⟩ |
    ⟨fresh, _, closed, warning, same⟩ | ⟨fresh, _, payload, opened, outcome, _⟩
  · rw [same, offeredKey_of_not_passes held, Option.none_or]
  · rw [isLive] at isDeleted
    cases isDeleted
  · rw [isLive] at isDeleted
    cases isDeleted
  · rw [same, offeredKey_of_passes fresh, closed]
    rfl
  · rw [offeredKey_of_passes fresh, opened, Option.bind_some]
    rcases outcome with ⟨effect, _, _⟩ | ⟨pin, rfl, _, same, _⟩ |
      ⟨host, _, _, _, _, rfl, _, rowOf, _, _, _⟩
    · by_cases own : payload.key = (.sshKey, id)
      · exact getKeyPrivate_of_saves effect own
      · have kept : (applyRecord codec secret localStamps now state record).vault.rowOf
            (.sshKey, id) = state.vault.rowOf (.sshKey, id) := by
          refine effect.rowOf_of_ne ?_ (by simp)
          rw [VaultStore.key_received]
          exact fun same => own same.symm
        rw [getKeyPrivate_eq kept, SyncPayload.privateKeyOf_of_key_ne own, Option.none_or]
    · rw [getKeyPrivate_eq (same.rowOf _)]
      rfl
    · have kept : (applyRecord codec secret localStamps now state record).vault.rowOf (.sshKey, id) =
          state.vault.rowOf (.sshKey, id) := by
        rw [rowOf]
        cases found : state.vault.rowOf (.sshKey, id) with
        | none => rfl
        | some row =>
          rw [Option.map_some, VaultStore.updateSecrets_of_key_ne]
          rw [VaultStore.key_of_rowOf found]
          simp
      rw [getKeyPrivate_eq kept]
      rfl

theorem lastOffered_cons (records : List (SyncRecord Bytes)) :
    lastOffered codec secret localStamps id (record :: records) =
      (lastOffered codec secret localStamps id records).or
        (offeredKey codec secret localStamps id record) := by
  simp only [lastOffered, filterMap_cons]
  cases offeredKey codec secret localStamps id record with
  | none => simp
  | some pem =>
    rw [getLast?_cons]
    cases (records.filterMap (offeredKey codec secret localStamps id)).getLast? <;> rfl

theorem getKeyPrivate_applyLoop (now : Nat → Stamp) (turn : Nat) (state : ApplyState)
    (records : List (SyncRecord Bytes)) (live : ∀ record ∈ records, record.isDeleted = false) :
    (applyLoop codec secret localStamps now turn state records).vault.getKeyPrivate id =
      (lastOffered codec secret localStamps id records).or (state.vault.getKeyPrivate id) := by
  induction records generalizing turn state with
  | nil => rfl
  | cons record records inductionHypothesis =>
    rw [applyLoop, inductionHypothesis _ _ fun other member => live other (.tail _ member),
      getKeyPrivate_applyRecord _ _ (live record (mem_cons_self ..)), lastOffered_cons,
      Option.or_assoc]

variable {records : List (SyncRecord Bytes)}

theorem getKeyPrivate_applyRecords {now : Nat → Stamp} {after : VaultStore}
    {warnings : List SyncWarning} (live : ∀ record ∈ records, record.isDeleted = false)
    (applied : applyRecords codec vault records (some secret) now = .ok (after, warnings)) :
    after.getKeyPrivate id =
      (lastOffered codec secret vault.localStamps id records).or (vault.getKeyPrivate id) := by
  have looped : (appliedState codec secret now vault records).vault.getKeyPrivate id =
      (lastOffered codec secret vault.localStamps id records).or (vault.getKeyPrivate id) :=
    getKeyPrivate_applyLoop now 0 ⟨vault, none, []⟩ records live
  simp only [applyRecords, Except.ok.injEq, Prod.mk.injEq] at applied
  obtain ⟨rfl, _⟩ := applied
  split
  · rw [getKeyPrivate_eq (VaultStore.rowOf_breakGroupCycles_of_ne _ _ (by simp))]
    exact looped
  · exact looped

/-! ### Batches -/

/-- One call of `apply_records`. -/
structure SyncBatch (Bytes : Type) where
  records : List (SyncRecord Bytes)
  sharedSecret : Option SharedSecret
  now : Nat → Stamp

def SyncBatch.deletesNothing (batch : SyncBatch Bytes) : Prop :=
  ∀ record ∈ batch.records, record.isDeleted = false

/-- The vault after a batch. One without a shared secret is turned away. -/
def VaultStore.takeBatch (codec : Codec Bytes) (vault : VaultStore) (batch : SyncBatch Bytes) :
    VaultStore :=
  match applyRecords codec vault batch.records batch.sharedSecret batch.now with
  | .ok (after, _) => after
  | .error _ => vault

/-- The private key of `entity` is brought for it by a record with a greater stamp. -/
def SyncBatch.Supplies (codec : Codec Bytes) (vault : VaultStore) (batch : SyncBatch Bytes)
    (entity : SshKey) (pem : String) : Prop :=
  ∃ secret, batch.sharedSecret = some secret ∧ ∃ record ∈ batch.records,
    offeredKey codec secret vault.localStamps entity.id record = some pem ∧
      entity.updatedAt < record.updatedAt

/-- Every private key stored before a batch is there after it, or a newer one is. -/
def KeysForward (codec : Codec Bytes) (vault : VaultStore) (batch : SyncBatch Bytes) : Prop :=
  ∀ entity stored, vault.rowOf (.sshKey, entity.id) = some (.sshKey entity (some stored)) →
    ∃ held, (vault.takeBatch codec batch).getKeyPrivate entity.id = some held ∧
      (held = stored ∨ held ≠ "" ∧ batch.Supplies codec vault entity held)

/-- The last private key a batch brings for a stored one is the stored one, or comes with a
greater stamp. -/
def OffersNewer (codec : Codec Bytes) (vault : VaultStore) (batch : SyncBatch Bytes) : Prop :=
  ∀ secret, batch.sharedSecret = some secret → ∀ entity stored pem,
    vault.rowOf (.sshKey, entity.id) = some (.sshKey entity (some stored)) →
    lastOffered codec secret vault.localStamps entity.id batch.records = some pem →
    pem = stored ∨ batch.Supplies codec vault entity pem

theorem exists_of_lastOffered (last : lastOffered codec secret localStamps id records = some pem) :
    ∃ record ∈ records, offeredKey codec secret localStamps id record = some pem :=
  mem_filterMap.mp (mem_of_getLast? last)

variable {batch : SyncBatch Bytes}

theorem getKeyPrivate_takeBatch (live : batch.deletesNothing)
    (shared : batch.sharedSecret = some secret) :
    (vault.takeBatch codec batch).getKeyPrivate id =
      (lastOffered codec secret vault.localStamps id batch.records).or
        (vault.getKeyPrivate id) := by
  unfold VaultStore.takeBatch
  rw [shared]
  split
  · rename_i after warnings applied
    exact getKeyPrivate_applyRecords live applied
  · rename_i error refused
    cases refused

theorem takeBatch_of_none (unshared : batch.sharedSecret = none) :
    vault.takeBatch codec batch = vault := by
  rw [VaultStore.takeBatch, unshared]
  rfl

theorem getKeyPrivate_of_rowOf {entity : SshKey} {stored : Option String}
    (found : vault.rowOf (.sshKey, entity.id) = some (.sshKey entity stored)) :
    vault.getKeyPrivate entity.id = stored := by
  rw [VaultStore.getKeyPrivate, VaultStore.secretOf, found]
  rfl

/-- A batch without deletions erases no private key. -/
theorem isSome_getKeyPrivate_takeBatch (live : batch.deletesNothing)
    (held : (vault.getKeyPrivate id).isSome) :
    ((vault.takeBatch codec batch).getKeyPrivate id).isSome := by
  cases shared : batch.sharedSecret with
  | none => rwa [takeBatch_of_none shared]
  | some secret => rw [getKeyPrivate_takeBatch live shared, Option.isSome_or, held, Bool.or_true]

theorem keysForward_iff_offersNewer (live : batch.deletesNothing) :
    KeysForward codec vault batch ↔ OffersNewer codec vault batch := by
  constructor
  · intro forward secret shared entity stored pem found last
    obtain ⟨held, after, kept⟩ := forward entity stored found
    rw [getKeyPrivate_takeBatch live shared, last] at after
    cases after
    exact kept.imp_right And.right
  · intro newer entity stored found
    have before := getKeyPrivate_of_rowOf found
    cases shared : batch.sharedSecret with
    | none =>
      rw [takeBatch_of_none shared]
      exact ⟨stored, before, .inl rfl⟩
    | some secret =>
      rw [getKeyPrivate_takeBatch live shared, before]
      cases last : lastOffered codec secret vault.localStamps entity.id batch.records with
      | none => exact ⟨stored, rfl, .inl rfl⟩
      | some pem =>
        obtain ⟨record, _, offered⟩ := exists_of_lastOffered last
        obtain ⟨_, nonempty, _⟩ := of_offeredKey offered
        refine ⟨pem, rfl, ?_⟩
        exact (newer secret shared entity stored pem found last).imp_right fun supplied =>
          ⟨nonempty, supplied⟩

/-- Where every header names the key its payload carries, the gate compared the right stamps. -/
theorem offersNewer_of_headers
    (own : ∀ secret record payload, batch.sharedSecret = some secret → record ∈ batch.records →
      codec.openPayload secret record = some payload → payload.key = record.key) :
    OffersNewer codec vault batch := by
  intro secret shared entity stored pem found last
  obtain ⟨record, member, offered⟩ := exists_of_lastOffered last
  obtain ⟨fresh, _, payload, opened, sameKey⟩ := of_offeredKey offered
  have header : record.key = (.sshKey, entity.id) :=
    (own secret record payload shared member opened).symm.trans sameKey
  refine .inr ⟨secret, shared, record, member, offered, fresh entity.updatedAt ?_⟩
  rw [header, VaultStore.localStamps, found]
  rfl

/-! ### Runs of batches -/

/-- The vault as one batch after another is applied to it. -/
def batches (codec : Codec Bytes) : Machine VaultStore (SyncBatch Bytes) where
  step vault batch := some (vault.takeBatch codec batch)

/-- A run of batches without deletions erases no private key, and moves every private key forward
exactly when every batch offers newer ones. -/
theorem privateKeys_of_run (codec : Codec Bytes) (vault : VaultStore)
    (run : List (SyncBatch Bytes)) (live : ∀ batch ∈ run, batch.deletesNothing) :
    (∀ final, (batches codec).run vault run = some final →
      ∀ id, (vault.getKeyPrivate id).isSome → (final.getKeyPrivate id).isSome) ∧
    ((batches codec).Along (KeysForward codec) vault run ↔
      (batches codec).Along (OffersNewer codec) vault run) := by
  constructor
  · intro final ran id held
    have kept : ∀ state (batch : SyncBatch Bytes) next, ((state.getKeyPrivate id).isSome : Prop) →
        batch.deletesNothing → (batches codec).step state batch = some next →
          (next.getKeyPrivate id).isSome := by
      intro state batch next before deletionFree stepped
      cases stepped
      exact isSome_getKeyPrivate_takeBatch deletionFree before
    exact Machine.invariant kept held (Machine.along_of_forall live) ran
  · exact Machine.along_congr (fun _ _ deletionFree => keysForward_iff_offersNewer deletionFree) live

/-! ### A key nobody compared -/

/-- A vault with one private key. -/
def onePrivateKey : VaultStore :=
  (VaultStore.empty true true).saveKey ⟨1, 50, "key"⟩ (some "mine")

/-- A batch of one record, with a private key for key 1 under the header of key `named`. -/
def privateKeyBatch (named : Uuid) (updatedAt : Stamp) : SyncBatch WireTerm where
  records := [⟨.sshKey, named, updatedAt, false,
    .sealed "secret" (.json (.sshKey ⟨1, updatedAt, "key"⟩ (some "theirs")))⟩]
  sharedSecret := some "secret"
  now _ := 70

theorem privateKeys_of_run_onePrivateKey :
    (batches Codec.symbolic).Along (KeysForward Codec.symbolic) onePrivateKey
      [privateKeyBatch 1 60, privateKeyBatch 1 40] := by
  refine (privateKeys_of_run Codec.symbolic onePrivateKey _ ?_).2.mpr
    ⟨offersNewer_of_headers ?_, fun next stepped => ⟨offersNewer_of_headers ?_, fun _ _ => trivial⟩⟩
  · intro batch member record isRecord
    simp only [mem_cons, not_mem_nil, or_false] at member
    rcases member with rfl | rfl <;>
      · rw [mem_singleton.mp isRecord]
  all_goals
    intro secret record payload shared member opened
    cases shared
    rw [mem_singleton.mp member] at opened ⊢
    cases opened
    rfl

/-- An older private key goes in under the header of a key the vault does not have. -/
theorem not_keysForward_onePrivateKey :
    ¬ (batches Codec.symbolic).Along (KeysForward Codec.symbolic) onePrivateKey
      [privateKeyBatch 2 10] := by
  rintro ⟨forward, _⟩
  obtain ⟨held, after, kept⟩ := forward ⟨1, 50, "key"⟩ "mine" (by decide)
  have replaced : held = "theirs" := by
    have theirs : (onePrivateKey.takeBatch Codec.symbolic (privateKeyBatch 2 10)).getKeyPrivate 1 =
        some "theirs" := by decide
    rw [theirs] at after
    exact (Option.some.inj after).symm
  subst replaced
  rcases kept with same | ⟨_, secret, shared, record, member, _, newer⟩
  · exact absurd same (by decide)
  · rw [mem_singleton.mp member] at newer
    exact absurd newer (by decide)

end Batch

end Oryxis

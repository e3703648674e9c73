/-
This file says what one turn of the apply loop can do.

There are four outcomes. The record is skipped, by the gate or because it cannot
be read, and nothing but the log changes. It is a deletion, and the delete of its
key runs. It carries a payload, and the row received under the PAYLOAD's key is
saved. Or the payload is a host whose group is missing: the save is refused, but
the secrets the wire carries are still set on the row that is stored.

The row that is received is spelled out by `received`: the entity as it came, the
trust decisions and the recency of this device, and secrets that fall back to the
stored ones where the wire carries none. Every invariant of runs of sessions is
proved from these outcomes.
-/

import Oryxis.Sync.Apply

namespace Oryxis

namespace VaultStore

/-- The row a payload is stored as, in a vault whose owner last used the host at `lastUsed`. -/
def received (vault : VaultStore) (lastUsed : Option Stamp) : SyncPayload → Row
  | .connection host password proxyPassword totpSecret targetPassword =>
    let stored := vault.secretsOf host.id
    .connection { host.stripLocalTrust with lastUsed := lastUsed }.stored
      { password := secretColumn (secretArg password) stored.password
        proxyPassword := secretColumn (secretArg proxyPassword) stored.proxyPassword
        totpSecret := secretColumn (secretArg totpSecret) stored.totpSecret
        targetPassword := secretColumn (secretArg targetPassword) stored.targetPassword }
  | .sshKey entity privateKey =>
    .sshKey entity
      (secretColumn (privateKey.filter fun pem => pem != "") (vault.getKeyPrivate entity.id))
  | .identity entity password =>
    .identity entity (secretColumn (secretArg password) (vault.getIdentityPassword entity.id))
  | .group entity => .group entity.stored
  | .snippet entity => .snippet entity
  | .knownHost entity => .knownHost entity
  | .proxyIdentity entity password =>
    .proxyIdentity entity
      (secretColumn (secretArg password) (vault.getProxyIdentityPassword entity.id))
  | .cloudProfile entity secret =>
    .cloudProfile entity (secretColumn (secretArg secret) (vault.getCloudProfileSecret entity.id))
  | .portForwardRule entity => .portForwardRule entity
  | .sessionGroup entity => .sessionGroup entity
  | .loginScript entity => .loginScript entity

variable (vault : VaultStore)

@[simp] theorem key_received (lastUsed : Option Stamp) (payload : SyncPayload) :
    (vault.received lastUsed payload).key = payload.key := by
  cases payload <;> rfl

@[simp] theorem updatedAt_received (lastUsed : Option Stamp) (payload : SyncPayload) :
    (vault.received lastUsed payload).updatedAt = payload.updatedAt := by
  cases payload <;> rfl

/-! ### Secrets set after a save -/

/-- The secrets of one host, after the setters. -/
def wireSecrets (proxyPassword totpSecret targetPassword : WireSecret)
    (stored : ConnectionSecrets) : ConnectionSecrets :=
  { stored with
    proxyPassword := secretColumn (secretArg proxyPassword) stored.proxyPassword
    totpSecret := secretColumn (secretArg totpSecret) stored.totpSecret
    targetPassword := secretColumn (secretArg targetPassword) stored.targetPassword }

variable (id : Uuid)

theorem rowOf_updateSecrets (change : ConnectionSecrets → ConnectionSecrets) (key : EntityKey) :
    (vault.updateSecrets id change).rowOf key =
      (vault.rowOf key).map (Row.updateSecrets id change) :=
  Library.Table.get?_update vault.rows (Row.updateSecrets id change)
    (Row.key_updateSecrets id change) (Row.endpoint_updateSecrets id change) key

theorem updateSecrets_updateSecrets (first second : ConnectionSecrets → ConnectionSecrets)
    (row : Row) :
    (row.updateSecrets id first).updateSecrets id second =
      row.updateSecrets id fun secrets => second (first secrets) := by
  cases row with
  | connection host secrets =>
    simp only [Row.updateSecrets]
    split <;> rfl
  | _ => rfl

theorem updateSecrets_same (row : Row) :
    row.updateSecrets id (fun secrets => secrets) = row := by
  cases row <;> simp [Row.updateSecrets]

/-- A setter writes its column, and the wire secret decides what. -/
theorem rowOf_setWireSecret (setter : VaultStore → Uuid → Option String → VaultStore)
    (read : ConnectionSecrets → Option String)
    (write : Option String → ConnectionSecrets → ConnectionSecrets)
    (sets : ∀ vault id argument, setter vault id argument =
      vault.updateSecrets id (write (argument.filter fun value => value != "")))
    (write_read : ∀ secrets, write (read secrets) secrets = secrets)
    (vault : VaultStore) (id : Uuid) (secret : WireSecret) (key : EntityKey) :
    (setWireSecret setter vault id secret).rowOf key =
      (vault.rowOf key).map (Row.updateSecrets id fun secrets =>
        write (secretColumn (secretArg secret) (read secrets)) secrets) := by
  unfold setWireSecret
  cases argument : secretArg secret with
  | none =>
    simp only [secretColumn, write_read]
    cases vault.rowOf key <;> simp [updateSecrets_same]
  | some value =>
    have column : ∀ stored, secretColumn (some value) stored =
        (some value).filter fun text => text != "" := by
      intro stored
      by_cases empty : value = "" <;> simp [secretColumn, Option.filter_some, empty]
    simp only [sets, rowOf_updateSecrets, column]

theorem rowOf_setWireSecrets (proxyPassword totpSecret targetPassword : WireSecret)
    (key : EntityKey) :
    (vault.setWireSecrets id proxyPassword totpSecret targetPassword).rowOf key =
      (vault.rowOf key).map
        (Row.updateSecrets id (wireSecrets proxyPassword totpSecret targetPassword)) := by
  simp only [setWireSecrets]
  rw [rowOf_setWireSecret setConnectionTargetPassword ConnectionSecrets.targetPassword
      (fun value secrets => { secrets with targetPassword := value }) (fun _ _ _ => rfl)
      fun _ => rfl,
    rowOf_setWireSecret setConnectionTotpSecret ConnectionSecrets.totpSecret
      (fun value secrets => { secrets with totpSecret := value }) (fun _ _ _ => rfl)
      fun _ => rfl,
    rowOf_setWireSecret setProxyPassword ConnectionSecrets.proxyPassword
      (fun value secrets => { secrets with proxyPassword := value }) (fun _ _ _ => rfl)
      fun _ => rfl]
  cases vault.rowOf key with
  | none => rfl
  | some row =>
    simp only [Option.map_some, updateSecrets_updateSecrets]
    rfl

theorem deletedAt_setWireSecrets (proxyPassword totpSecret targetPassword : WireSecret)
    (key : EntityKey) :
    (vault.setWireSecrets id proxyPassword totpSecret targetPassword).deletedAt key =
      vault.deletedAt key := by
  simp only [setWireSecrets, setWireSecret]
  repeat' split
  all_goals rfl

theorem surroundings_setWireSecrets (proxyPassword totpSecret targetPassword : WireSecret) :
    (vault.setWireSecrets id proxyPassword totpSecret targetPassword).surroundings =
      vault.surroundings := by
  simp only [setWireSecrets, setWireSecret]
  repeat' split
  all_goals rfl

/-! ### The audit log -/

theorem sameEntities_logIf (condition : Bool) (label hostname message : String) :
    vault.SameEntities (vault.logIf condition label hostname message) := by
  unfold logIf
  split <;> exact ⟨fun _ => rfl, fun _ => rfl, rfl⟩

end VaultStore

/-! ### Payloads -/

/-- The recency map after a payload: the first host of a batch reads it. -/
def ApplyState.recencyAfter (state : ApplyState) :
    SyncPayload → Option (List (Uuid × Option Stamp))
  | .connection .. => some (state.localRecency.getD state.vault.readRecency)
  | _ => state.localRecency

/-- The recency a received host gets. -/
def ApplyState.lastUsed (state : ApplyState) : SyncPayload → Option Stamp
  | .connection host .. => recencyOf (state.localRecency.getD state.vault.readRecency) host.id
  | _ => none

/-- Whether the save of a payload is refused: a host whose group is missing, or a pin of another
fingerprint than the local one. -/
def VaultStore.refuses (vault : VaultStore) : SyncPayload → Bool
  | .connection host .. => vault.missesGroup host
  | .knownHost pin => vault.replacesLocalPin pin
  | _ => false

/-- What saving a payload does to the state of the loop. -/
inductive PayloadOutcome (state : ApplyState) (key : EntityKey) (now : Stamp)
    (payload : SyncPayload) (after : ApplyState) : Prop
  | saved
      (effect : state.vault.Saves (state.vault.received (state.lastUsed payload) payload) now
        after.vault)
      (accepted : state.vault.refuses payload = false)
      (warnings : after.warnings = state.warnings)
  | keyChangeRefused (pin : KnownHost) (isPin : payload = .knownHost pin)
      (replaces : state.vault.replacesLocalPin pin = true)
      (same : state.vault.SameEntities after.vault)
      (warnings : after.warnings = state.warnings ++ [.keyChangeRefused pin])
  | saveRefused (host : Connection) (password proxyPassword totpSecret targetPassword : WireSecret)
      (isHost : payload = .connection host password proxyPassword totpSecret targetPassword)
      (misses : state.vault.missesGroup host = true)
      (rowOf : ∀ stored, after.vault.rowOf stored = (state.vault.rowOf stored).map
        (Row.updateSecrets host.id
          (VaultStore.wireSecrets proxyPassword totpSecret targetPassword)))
      (deletedAt : ∀ stored, after.vault.deletedAt stored = state.vault.deletedAt stored)
      (surroundings : after.vault.surroundings = state.vault.surroundings)
      (warnings : after.warnings = state.warnings ++ [.saveFailed key .foreignKey])

theorem VaultStore.updateSecrets_of_key_ne {row : Row} {id : Uuid}
    (change : ConnectionSecrets → ConnectionSecrets) (different : row.key ≠ (.connection, id)) :
    row.updateSecrets id change = row := by
  cases row with
  | connection host secrets =>
    have other : host.id ≠ id := fun same => different (congrArg (Prod.mk _) same)
    simp [Row.updateSecrets, other]
  | _ => rfl

/-- A host, saved and given its wire secrets, is the host received. -/
theorem VaultStore.saves_received_connection {vault logged saved : VaultStore} {now : Stamp}
    {lastUsed : Option Stamp} {host : Connection}
    {password proxyPassword totpSecret targetPassword : WireSecret}
    (same : vault.SameEntities logged)
    (done : logged.saveConnection { host.stripLocalTrust with lastUsed := lastUsed }
      (secretArg password) = .ok saved) :
    vault.Saves
      (vault.received lastUsed (.connection host password proxyPassword totpSecret targetPassword))
      now (saved.setWireSecrets host.id proxyPassword totpSecret targetPassword) := by
  have effect := same.saves (saves_saveConnection done now)
  have secrets : logged.secretsOf host.id = vault.secretsOf host.id := by
    simp only [secretsOf, same.rowOf]
  have rowKey : (vault.received lastUsed
      (.connection host password proxyPassword totpSecret targetPassword)).key =
        (.connection, host.id) := rfl
  refine saves_of_null now rfl (fun key => ?_) (fun key => ?_) ?_
  · rw [rowOf_setWireSecrets, rowKey]
    by_cases here : key = (.connection, host.id)
    · subst here
      have stored : saved.rowOf (.connection, host.id) = _ := effect.rowOf_self
      rw [stored, if_pos rfl, Option.map_some]
      simp [Row.updateSecrets, received, wireSecrets, Connection.stored, Connection.stripLocalTrust,
        secrets]
    · rw [effect.rowOf_of_null rfl here, if_neg here]
      cases found : vault.rowOf key with
      | none => rfl
      | some row =>
        rw [Option.map_some, updateSecrets_of_key_ne _ (by rwa [key_of_rowOf found])]
  · rw [deletedAt_setWireSecrets, rowKey]
    by_cases here : key = (.connection, host.id)
    · subst here
      rw [if_pos rfl]
      exact effect.deletedAt_self
    · rw [effect.deletedAt_of_null rfl here, if_neg here]
  · exact (surroundings_setWireSecrets ..).trans effect.surroundings

theorem VaultStore.missesGroup_of_same {vault logged : VaultStore} (same : vault.SameEntities logged)
    (host : Connection) : logged.missesGroup host = vault.missesGroup host := by
  have flag : logged.foreignKeys = vault.foreignKeys :=
    congrArg (fun rest => rest.2.2) same.surroundings
  simp only [missesGroup, same.rowOf, flag]

theorem payloadOutcome_applyPayload (state : ApplyState) (key : EntityKey)
    (overwritesLocal : Bool) (now : Stamp) (payload : SyncPayload) :
    PayloadOutcome state key now payload (applyPayload state key overwritesLocal now payload) := by
  cases payload with
  | connection host password proxyPassword totpSecret targetPassword =>
    simp only [applyPayload]
    generalize logged : state.vault.logIf overwritesLocal _ _ _ = vault
    have same : state.vault.SameEntities vault := logged ▸ state.vault.sameEntities_logIf ..
    cases done : vault.saveConnection _ (secretArg password) with
    | ok saved =>
      refine .saved (VaultStore.saves_received_connection same done) ?_ rfl
      change state.vault.missesGroup host = false
      unfold VaultStore.saveConnection at done
      split at done
      · cases done
      · rename_i housed
        rw [← VaultStore.missesGroup_of_same same]
        exact Bool.eq_false_iff.mpr housed
    | error error =>
      have refused : vault.missesGroup host = true := by
        unfold VaultStore.saveConnection at done
        split at done
        · assumption
        · cases done
      have reason : error = .foreignKey := by
        unfold VaultStore.saveConnection at done
        split at done
        · cases done
          rfl
        · cases done
      subst reason
      refine .saveRefused host _ _ _ _ rfl ?_ (fun stored => ?_) (fun stored => ?_) ?_ rfl
      · rwa [VaultStore.missesGroup_of_same same] at refused
      · rw [← same.rowOf]
        exact VaultStore.rowOf_setWireSecrets ..
      · rw [← same.deletedAt]
        exact VaultStore.deletedAt_setWireSecrets ..
      · exact (VaultStore.surroundings_setWireSecrets ..).trans same.surroundings
  | knownHost pin =>
    simp only [applyPayload]
    split
    · rename_i replaces
      exact .keyChangeRefused pin rfl replaces ⟨fun _ => rfl, fun _ => rfl, rfl⟩ rfl
    · rename_i keeps
      exact .saved ((state.vault.sameEntities_logIf ..).saves
        (VaultStore.saves_saveKnownHost _ pin now)) (by simpa [VaultStore.refuses] using keeps) rfl
  | proxyIdentity entity password =>
    simp only [applyPayload]
    generalize logged : state.vault.logIf overwritesLocal _ _ _ = vault
    have same : state.vault.SameEntities vault := logged ▸ state.vault.sameEntities_logIf ..
    have stored : vault.getProxyIdentityPassword entity.id =
        state.vault.getProxyIdentityPassword entity.id := by
      simp only [VaultStore.getProxyIdentityPassword, VaultStore.secretOf, same.rowOf]
    refine .saved (same.saves ?_) rfl rfl
    simp only [VaultStore.received, ← stored]
    exact VaultStore.saves_replaceRow vault _ now rfl
  | group entity | portForwardRule entity | loginScript entity =>
    exact .saved ((state.vault.sameEntities_logIf ..).saves
      (VaultStore.saves_replaceRow _ _ now rfl)) rfl rfl
  | _ =>
    exact .saved (VaultStore.saves_replaceRow _ _ now rfl) rfl rfl

/-! ### One record -/

section Records

variable {Bytes : Type}

/-- What a record opens to: unsealed, and deserialised at the type its header names. -/
def Codec.openPayload (codec : Codec Bytes) (secret : SharedSecret) (record : SyncRecord Bytes) :
    Option SyncPayload :=
  (codec.decrypt secret record.payload).bind (codec.fromSlice record.entityType)

/-- Whether a record passes the gate: it is strictly newer than what the vault held. -/
def passes (localStamps : EntityKey → Option Stamp) (record : SyncRecord Bytes) : Prop :=
  ∀ localStamp, localStamps record.key = some localStamp → localStamp < record.updatedAt

/-- What one turn of the loop does. -/
inductive TurnOutcome (codec : Codec Bytes) (secret : SharedSecret)
    (localStamps : EntityKey → Option Stamp) (now : Stamp) (state : ApplyState)
    (record : SyncRecord Bytes) (after : ApplyState) : Prop
  | stale (held : ¬ passes localStamps record) (same : after = state)
  | deleted (fresh : passes localStamps record) (isDeleted : record.isDeleted = true)
      (effect : state.vault.Deletes record.key now after.vault)
      (warnings : after.warnings = state.warnings)
      (recency : after.localRecency = state.localRecency)
      (free : ¬(record.entityType = .group ∧ state.vault.groupInUse record.entityId = true))
  | deleteRefused (fresh : passes localStamps record) (isDeleted : record.isDeleted = true)
      (isGroup : record.entityType = .group)
      (inUse : state.vault.groupInUse record.entityId = true)
      (same : after = state.warn (.deleteFailed record.key .foreignKey))
  | unreadable (fresh : passes localStamps record) (isLive : record.isDeleted = false)
      (closed : codec.openPayload secret record = none) (warning : SyncWarning)
      (same : after = state.warn warning)
  | payload (fresh : passes localStamps record) (isLive : record.isDeleted = false)
      (payload : SyncPayload) (opened : codec.openPayload secret record = some payload)
      (outcome : PayloadOutcome state record.key now payload after)
      (recency : after.localRecency = state.recencyAfter payload)

theorem passes_iff (localStamps : EntityKey → Option Stamp) (record : SyncRecord Bytes) :
    passes localStamps record ↔
      ((localStamps record.key).any fun localStamp => decide (record.updatedAt ≤ localStamp)) =
        false := by
  unfold passes
  cases localStamps record.key with
  | none => simp
  | some localStamp => simp

theorem localRecency_applyPayload (state : ApplyState) (key : EntityKey)
    (overwritesLocal : Bool) (now : Stamp) (payload : SyncPayload) :
    (applyPayload state key overwritesLocal now payload).localRecency =
      state.recencyAfter payload := by
  cases payload with
  | connection host password proxyPassword totpSecret targetPassword =>
    simp only [applyPayload, ApplyState.setVault, ApplyState.store, ApplyState.recencyAfter]
    split <;> rfl
  | knownHost pin =>
    simp only [applyPayload]
    split <;> rfl
  | _ => rfl

variable (codec : Codec Bytes)

variable (secret : SharedSecret)

theorem turnOutcome_applyRecord (localStamps : EntityKey → Option Stamp) (now : Stamp)
    (state : ApplyState) (record : SyncRecord Bytes) :
    TurnOutcome codec secret localStamps now state record
      (applyRecord codec secret localStamps now state record) := by
  unfold applyRecord
  split
  · rename_i held
    refine .stale (fun fresh => ?_) rfl
    rw [(passes_iff localStamps record).mp fresh] at held
    cases held
  · rename_i notHeld
    have fresh : passes localStamps record :=
      (passes_iff localStamps record).mpr (by simpa using notHeld)
    split
    · rename_i isDeleted
      cases done : state.vault.deleteEntity record.key now with
      | ok deleted =>
        exact .deleted fresh isDeleted (VaultStore.deletes_deleteEntity done) rfl rfl
          (VaultStore.free_of_deleteEntity done)
      | error error =>
        obtain ⟨isGroup, inUse, rfl⟩ := VaultStore.deleteEntity_error done
        exact .deleteRefused fresh isDeleted isGroup inUse rfl
    · rename_i notDeleted
      have isLive : record.isDeleted = false := by simpa using notDeleted
      cases opened : codec.decrypt secret record.payload with
      | none => exact .unreadable fresh isLive (by rw [Codec.openPayload, opened]; rfl) _ rfl
      | some plain =>
        simp only
        cases decoded : codec.fromSlice record.entityType plain with
        | none =>
          exact .unreadable fresh isLive (by rw [Codec.openPayload, opened]; exact decoded) _ rfl
        | some payload =>
          exact .payload fresh isLive payload
            (by rw [Codec.openPayload, opened]; exact decoded)
            (payloadOutcome_applyPayload ..) (localRecency_applyPayload ..)

theorem surroundings_applyRecord (localStamps : EntityKey → Option Stamp) (now : Stamp)
    (state : ApplyState) (record : SyncRecord Bytes) :
    (applyRecord codec secret localStamps now state record).vault.surroundings =
      state.vault.surroundings := by
  rcases turnOutcome_applyRecord codec secret localStamps now state record with
    ⟨_, same⟩ | ⟨_, _, effect, _, _⟩ | ⟨_, _, _, _, same⟩ | ⟨_, _, _, _, same⟩ |
    ⟨_, _, payload, _, outcome, _⟩
  · rw [same]
  · exact effect.surroundings
  · rw [same]
    rfl
  · rw [same]
    rfl
  · rcases outcome with ⟨effect, _, _⟩ | ⟨_, _, _, same, _⟩ |
      ⟨_, _, _, _, _, _, _, _, _, surroundings, _⟩
    · exact effect.surroundings
    · exact same.surroundings
    · exact surroundings

/-! ### All turns of a batch -/

/-- The state every record of a batch meets in its turn. -/
def meetings (codec : Codec Bytes) (secret : SharedSecret)
    (localStamps : EntityKey → Option Stamp) (now : Nat → Stamp) :
    Nat → ApplyState → List (SyncRecord Bytes) → List (ApplyState × SyncRecord Bytes)
  | _, _, [] => []
  | turn, state, record :: records =>
    (state, record) ::
      meetings codec secret localStamps now (turn + 1)
        (applyRecord codec secret localStamps (now turn) state record) records

theorem record_mem_of_mem_meetings {codec : Codec Bytes} {secret : SharedSecret}
    {localStamps : EntityKey → Option Stamp} {now : Nat → Stamp} {turn : Nat}
    {state before : ApplyState} {records : List (SyncRecord Bytes)} {record : SyncRecord Bytes}
    (member : (before, record) ∈ meetings codec secret localStamps now turn state records) :
    record ∈ records := by
  induction records generalizing turn state with
  | nil => cases member
  | cons first records inductionHypothesis =>
    rcases List.mem_cons.mp member with same | later
    · cases same
      exact List.mem_cons_self ..
    · exact List.mem_cons_of_mem _ (inductionHypothesis later)

/-- What holds before the batch and survives every turn holds after it. -/
theorem applyLoop_invariant (localStamps : EntityKey → Option Stamp) (now : Nat → Stamp)
    (holds : ApplyState → Prop) (turn : Nat) (state : ApplyState)
    (records : List (SyncRecord Bytes)) (step : ∀ before record, (before, record) ∈
        meetings codec secret localStamps now turn state records → holds before →
      ∀ reading, holds (applyRecord codec secret localStamps (now reading) before record))
    (start : holds state) :
    holds (applyLoop codec secret localStamps now turn state records) := by
  induction records generalizing turn state with
  | nil => exact start
  | cons record records inductionHypothesis =>
    refine inductionHypothesis _ _ (fun before other member => ?_) ?_
    · exact step before other (List.mem_cons_of_mem _ member)
    · exact step state record (List.mem_cons_self ..) start turn

end Records

end Oryxis

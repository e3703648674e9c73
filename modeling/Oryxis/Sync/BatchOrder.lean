/-
This file asks when a batch may come in any order: when the vault ends with, for every entity,
the greatest-stamped of what it held and of the records the batch has for it.

What should be there is a register for each entity, which a write with a later stamp takes over
and any other write leaves alone. The loop has no such register. Its gate compares every record
with the stamps from before the batch, so a record that comes after a later one of its own
entity is carried out all the same. A batch does what the registers say exactly when each of
its records, in the state its turn finds, does what the register of its entity does and touches
no other entity.
-/

import Oryxis.Library.Machine
import Oryxis.Sync.Versions

namespace Oryxis

open Library Library.Parents

/-! ### Registers -/

/-- What is held of an entity: its row, and whether there is a tombstone. -/
structure Held where
  row : Option Row
  deleted : Bool
  deriving DecidableEq

def VaultStore.held (vault : VaultStore) (key : EntityKey) : Held :=
  ⟨vault.rowOf key, (vault.deletedAt key).isSome⟩

/-- The latest version of an entity: its stamp, and what it leaves there. A record that cannot be
read leaves nothing that can be there. -/
structure Register where
  stamp : Option Stamp
  held : Option Held

/-- Whether a stamp is later than that of a register. -/
def Register.isBefore (register : Register) (stamp : Stamp) : Bool :=
  register.stamp.all fun own => own < stamp

/-- The later write wins. -/
def Register.write (register : Register) (stamp : Stamp) (held : Option Held) : Register :=
  if register.isBefore stamp then ⟨some stamp, held⟩ else register

section Registers

variable {Bytes : Type}

/-- What a record should leave of its entity, in the vault its turn finds. -/
def version (codec : Codec Bytes) (secret : SharedSecret) (before : ApplyState)
    (record : SyncRecord Bytes) : Option Held :=
  if record.isDeleted then some ⟨none, true⟩
  else (codec.openPayload secret record).map fun payload =>
    ⟨some (before.vault.received (before.lastUsed payload) payload), false⟩

/-- The register of an entity after some turns, over what the vault held. -/
def registerAfter (codec : Codec Bytes) (secret : SharedSecret) (vault : VaultStore)
    (turns : List (ApplyState × SyncRecord Bytes)) (key : EntityKey) : Register :=
  turns.foldl
    (fun register turn =>
      if turn.2.key = key then register.write turn.2.updatedAt (version codec secret turn.1 turn.2)
      else register)
    ⟨vault.localStamps key, some (vault.held key)⟩

/-- A batch leaves every entity as its register says. -/
def LeavesGreatest (codec : Codec Bytes) (secret : SharedSecret) (now : Nat → Stamp)
    (vault : VaultStore) (records : List (SyncRecord Bytes)) : Prop :=
  ∀ after warnings, applyRecords codec vault records (some secret) now = .ok (after, warnings) →
    ∀ key, (registerAfter codec secret vault
      (meetings codec secret vault.localStamps now 0 ⟨vault, none, []⟩ records) key).held =
        some (after.held key)

variable {codec : Codec Bytes} {secret : SharedSecret} {vault : VaultStore}
  {turns : List (ApplyState × SyncRecord Bytes)} {key : EntityKey}

theorem registerAfter_snoc (turn : ApplyState × SyncRecord Bytes) :
    registerAfter codec secret vault (turns ++ [turn]) key =
      if turn.2.key = key then (registerAfter codec secret vault turns key).write turn.2.updatedAt
        (version codec secret turn.1 turn.2)
      else registerAfter codec secret vault turns key := by
  rw [registerAfter, List.foldl_append]
  rfl

/-- A register is not earlier than what the vault held. -/
theorem passes_of_isBefore {record : SyncRecord Bytes} (isKey : record.key = key)
    (before : (registerAfter codec secret vault turns key).isBefore record.updatedAt = true) :
    passes vault.localStamps record := by
  induction turns using List.reverseRecOn with
  | nil =>
    intro localStamp held
    rw [isKey] at held
    simpa [registerAfter, Register.isBefore, held] using before
  | append_singleton turns turn inductionHypothesis =>
    rw [registerAfter_snoc] at before
    split at before
    · rw [Register.write] at before
      split at before
      · rename_i written
        refine inductionHypothesis ?_
        simp only [Register.isBefore, Option.all_some, decide_eq_true_eq] at before
        simp only [Register.isBefore, Option.all_eq_true, decide_eq_true_eq] at written ⊢
        intro own isOwn
        exact Int.lt_trans (written own isOwn) before
      · exact inductionHypothesis before
    · exact inductionHypothesis before

end Registers

/-! ### One turn -/

/-- What a save that is refused does to a row all the same. -/
def SyncPayload.setSecrets : SyncPayload → Row → Row
  | .connection host _ proxyPassword totpSecret targetPassword =>
    Row.updateSecrets host.id (VaultStore.wireSecrets proxyPassword totpSecret targetPassword)
  | _ => fun row => row

/-- A payload does what the register of its header's key does: a later one is stored under that
key, and any other leaves what is there. -/
def PayloadKeepsOrder (before : ApplyState) (key : EntityKey) (later : Bool)
    (payload : SyncPayload) : Prop :=
  let row := before.vault.received (before.lastUsed payload) payload
  if before.vault.refuses payload then
    if later then
      (before.vault.rowOf key).map payload.setSecrets = some row ∧ before.vault.deletedAt key = none
    else ∀ stored, before.vault.rowOf payload.key = some stored → payload.setSecrets stored = stored
  else
    (later = true → row.key = key) ∧
      (later = false → before.vault.held row.key = ⟨some row, false⟩) ∧
      ∀ other stored, other ≠ row.key → before.vault.rowOf other = some stored →
        Table.displaces Row.key Row.endpoint row stored = false

section Turns

variable {Bytes : Type}

/-- The same of a record that passes the gate, of which `later` says whether it is later than all
there was of its entity. -/
def KeepsOrder (codec : Codec Bytes) (secret : SharedSecret)
    (localStamps : EntityKey → Option Stamp) (later : Bool) (before : ApplyState)
    (record : SyncRecord Bytes) : Prop :=
  passes localStamps record →
    if record.isDeleted then
      if record.entityType = .group ∧ before.vault.groupInUse record.entityId = true then
        later = true → before.vault.held record.key = ⟨none, true⟩
      else before.vault.DeletesAlone record.key ∧
        (later = false → before.vault.held record.key = ⟨none, true⟩)
    else
      match codec.openPayload secret record with
      | none => later = false
      | some payload => PayloadKeepsOrder before record.key later payload

/-- The turn writes the version it should, or nothing, and no other entity. -/
def WritesRegister (codec : Codec Bytes) (secret : SharedSecret) (later : Bool)
    (before : ApplyState) (record : SyncRecord Bytes) (after : ApplyState) : Prop :=
  (∀ key, key ≠ record.key → after.vault.held key = before.vault.held key) ∧
    some (after.vault.held record.key) =
      if later then version codec secret before record else some (before.vault.held record.key)

variable {codec : Codec Bytes} {secret : SharedSecret} {localStamps : EntityKey → Option Stamp}
  {later : Bool} {before after : ApplyState} {record : SyncRecord Bytes} {now : Stamp}

variable {deleted : Bool}

theorem held_eq_iff {vault : VaultStore} {key : EntityKey} {row : Option Row} :
    vault.held key = ⟨row, deleted⟩ ↔
      vault.rowOf key = row ∧ (vault.deletedAt key).isSome = deleted := by
  rw [VaultStore.held, Held.mk.injEq]

/-- A turn that changes nothing is right where there is nothing to write. -/
theorem writesRegister_of_same (same : ∀ key, after.vault.held key = before.vault.held key) :
    WritesRegister codec secret later before record after ↔
      (later = true →
        version codec secret before record = some (before.vault.held record.key)) := by
  unfold WritesRegister
  rw [same]
  cases later with
  | false => simp [same]
  | true => simp [same, eq_comm]

theorem version_of_isDeleted (isDeleted : record.isDeleted = true) :
    version codec secret before record = some ⟨none, true⟩ := by
  rw [version, if_pos isDeleted]

theorem version_of_isLive (isLive : record.isDeleted = false) :
    version codec secret before record = (codec.openPayload secret record).map fun payload =>
      ⟨some (before.vault.received (before.lastUsed payload) payload), false⟩ := by
  rw [version, isLive]
  rfl

theorem writesRegister_of_deletes (isDeleted : record.isDeleted = true)
    (effect : before.vault.Deletes record.key now after.vault) :
    WritesRegister codec secret later before record after ↔
      before.vault.DeletesAlone record.key ∧
        (later = false → before.vault.held record.key = ⟨none, true⟩) := by
  have own : after.vault.held record.key = ⟨none, true⟩ := by
    rw [held_eq_iff, effect.rowOf, effect.deletedAt, if_pos rfl, if_pos (.inl rfl)]
    exact ⟨rfl, rfl⟩
  have others : (∀ key, key ≠ record.key → after.vault.held key = before.vault.held key) ↔
      before.vault.DeletesAlone record.key := by
    rw [← VaultStore.writesOnly_iff_deletesAlone effect]
    constructor
    · intro same key different
      exact (held_eq_iff.mp (same key different)).1
    · intro own key different
      refine held_eq_iff.mpr ⟨own key different, ?_⟩
      have alone := (VaultStore.writesOnly_iff_deletesAlone effect).mp own
      have kept : (before.vault.rowOf key).any (Row.orphanedBy record.key) = false := by
        cases found : before.vault.rowOf key with
        | none => rfl
        | some row => exact (alone key row different found).1
      rw [effect.deletedAt, if_neg (by simp [different, kept])]
  unfold WritesRegister
  rw [others, own, version_of_isDeleted isDeleted]
  cases later with
  | false => simp [eq_comm]
  | true => simp

variable {row : Row}

/-- What is stored under a key bears it. -/
theorem key_of_held {vault : VaultStore} {key : EntityKey}
    (held : vault.held key = ⟨some row, deleted⟩) : row.key = key :=
  VaultStore.key_of_rowOf (held_eq_iff.mp held).1

variable {payload : SyncPayload}

theorem writesRegister_of_saves (isLive : record.isDeleted = false)
    (opened : codec.openPayload secret record = some payload)
    (effect : before.vault.Saves (before.vault.received (before.lastUsed payload) payload) now
      after.vault) (accepted : before.vault.refuses payload = false) :
    WritesRegister codec secret later before record after ↔
      PayloadKeepsOrder before record.key later payload := by
  unfold WritesRegister PayloadKeepsOrder
  rw [accepted, if_neg Bool.false_ne_true, version_of_isLive isLive, opened, Option.map_some]
  generalize before.vault.received (before.lastUsed payload) payload = row at effect ⊢
  have own : after.vault.held row.key = ⟨some row, false⟩ :=
    held_eq_iff.mpr ⟨effect.rowOf_self, by rw [effect.deletedAt_self]; rfl⟩
  have others : (∀ key, key ≠ row.key → after.vault.held key = before.vault.held key) ↔
      ∀ other stored, other ≠ row.key → before.vault.rowOf other = some stored →
        Table.displaces Row.key Row.endpoint row stored = false := by
    constructor
    · intro same other stored different found
      have rowOf := (held_eq_iff.mp (same other different)).1
      rw [effect.rowOf, if_neg different, found, Option.filter_some] at rowOf
      cases displaced : Table.displaces Row.key Row.endpoint row stored with
      | false => rfl
      | true => simp [displaced] at rowOf
    · intro alone key different
      refine held_eq_iff.mpr ⟨?_, ?_⟩
      · rw [effect.rowOf, if_neg different]
        cases found : before.vault.rowOf key with
        | none => rfl
        | some stored => rw [Option.filter_some, alone key stored different found]; rfl
      · have kept : (before.vault.rowOf key).any row.staleFor = false := by
          cases found : before.vault.rowOf key with
          | none => rfl
          | some stored =>
            refine Bool.eq_false_iff.mpr fun stale => ?_
            have displaced := VaultStore.displaces_of_staleFor stale
            rw [alone key stored different found] at displaced
            cases displaced
        rw [effect.deletedAt, if_neg different, kept, if_neg Bool.false_ne_true]
  rw [← others]
  cases later with
  | true =>
    simp only [if_true, Option.some.injEq, forall_const, reduceCtorEq, IsEmpty.forall_iff,
      true_and]
    constructor
    · rintro ⟨same, written⟩
      have isKey := key_of_held written
      exact ⟨isKey, fun key different => same key (isKey ▸ different)⟩
    · rintro ⟨isKey, same⟩
      exact ⟨fun key different => same key (isKey ▸ different), isKey ▸ own⟩
  | false =>
    simp only [Bool.false_eq_true, if_false, Option.some.injEq, forall_const, IsEmpty.forall_iff,
      true_and]
    constructor
    · rintro ⟨same, kept⟩
      have all : ∀ key, after.vault.held key = before.vault.held key := by
        intro key
        by_cases isKey : key = record.key
        · rw [isKey, kept]
        · exact same key isKey
      exact ⟨(all row.key).symm.trans own, fun key _ => all key⟩
    · rintro ⟨there, same⟩
      have all : ∀ key, after.vault.held key = before.vault.held key := by
        intro key
        by_cases isRow : key = row.key
        · rw [isRow, own, there]
        · exact same key isRow
      exact ⟨fun key _ => all key, all record.key⟩

theorem setSecrets_of_key_ne (different : row.key ≠ payload.key) :
    payload.setSecrets row = row := by
  cases payload with
  | connection host password proxyPassword totpSecret targetPassword =>
    exact VaultStore.updateSecrets_of_key_ne _ different
  | _ => rfl

theorem writesRegister_of_refused (isLive : record.isDeleted = false)
    (opened : codec.openPayload secret record = some payload)
    (refused : before.vault.refuses payload = true)
    (rowOf : ∀ key, after.vault.rowOf key = (before.vault.rowOf key).map payload.setSecrets)
    (deletedAt : ∀ key, after.vault.deletedAt key = before.vault.deletedAt key) :
    WritesRegister codec secret later before record after ↔
      PayloadKeepsOrder before record.key later payload := by
  unfold WritesRegister PayloadKeepsOrder
  rw [refused, if_pos rfl, version_of_isLive isLive, opened, Option.map_some]
  have isReceived := before.vault.key_received (before.lastUsed payload) payload
  generalize before.vault.received (before.lastUsed payload) payload = row at isReceived ⊢
  have elsewhere : ∀ key, key ≠ payload.key → after.vault.held key = before.vault.held key := by
    intro key different
    refine held_eq_iff.mpr ⟨?_, by rw [deletedAt]⟩
    rw [rowOf]
    cases found : before.vault.rowOf key with
    | none => rfl
    | some stored =>
      rw [Option.map_some, setSecrets_of_key_ne (by rwa [VaultStore.key_of_rowOf found])]
  cases later with
  | true =>
    simp only [if_true, Option.some.injEq]
    have written : after.vault.held record.key = ⟨some row, false⟩ ↔
        (before.vault.rowOf record.key).map payload.setSecrets = some row ∧
          before.vault.deletedAt record.key = none := by
      rw [held_eq_iff, rowOf, deletedAt, Option.isSome_eq_false_iff, Option.isNone_iff_eq_none]
    rw [← written]
    refine and_iff_right_of_imp fun held key different => elsewhere key ?_
    -- What is there bears the header's key, so the payload does.
    rw [← isReceived, key_of_held held]
    exact different
  | false =>
    simp only [Bool.false_eq_true, if_false, Option.some.injEq]
    constructor
    · rintro ⟨same, kept⟩ stored found
      have here : after.vault.held payload.key = before.vault.held payload.key := by
        by_cases isKey : payload.key = record.key
        · rw [isKey, kept]
        · exact same _ isKey
      have row := (held_eq_iff.mp here).1
      rw [rowOf, found, Option.map_some] at row
      exact Option.some.inj row
    · intro unchanged
      have all : ∀ key, after.vault.held key = before.vault.held key := by
        intro key
        by_cases isKey : key = payload.key
        · subst isKey
          refine held_eq_iff.mpr ⟨?_, by rw [deletedAt]⟩
          rw [rowOf]
          cases found : before.vault.rowOf payload.key with
          | none => rfl
          | some stored => rw [Option.map_some, unchanged stored found]
        · exact elsewhere key isKey
      exact ⟨fun key _ => all key, all record.key⟩

/-- A turn is right exactly when its record keeps the order in the state the turn finds. -/
theorem writesRegister_iff (now : Stamp)
    (fresh : later = true → passes localStamps record) :
    WritesRegister codec secret later before record
        (applyRecord codec secret localStamps now before record) ↔
      KeepsOrder codec secret localStamps later before record := by
  have notDeleted : record.isDeleted = false → ¬ record.isDeleted = true :=
    fun isLive => Bool.eq_false_iff.mp isLive
  have warned : ∀ warning key, (before.warn warning).vault.held key = before.vault.held key :=
    fun _ _ => rfl
  unfold KeepsOrder
  rcases turnOutcome_applyRecord codec secret localStamps now before record with
    ⟨held, same⟩ | ⟨passed, isDeleted, effect, _, _, free⟩ |
    ⟨passed, isDeleted, isGroup, inUse, same⟩ | ⟨passed, isLive, closed, warning, same⟩ |
    ⟨passed, isLive, payload, opened, outcome, _⟩
  · rw [same, writesRegister_of_same fun _ => rfl]
    exact iff_of_true (fun isLater => absurd (fresh isLater) held) fun passed => absurd passed held
  · rw [forall_prop_of_true passed, if_pos isDeleted, if_neg free]
    exact writesRegister_of_deletes isDeleted effect
  · rw [forall_prop_of_true passed, if_pos isDeleted, if_pos ⟨isGroup, inUse⟩, same,
      writesRegister_of_same (warned _), version_of_isDeleted isDeleted, Option.some.injEq]
    exact forall_congr' fun _ => eq_comm
  · rw [forall_prop_of_true passed, if_neg (notDeleted isLive), same,
      writesRegister_of_same (warned _), version_of_isLive isLive, closed, Option.map_none]
    cases later <;> simp
  · rw [forall_prop_of_true passed, if_neg (notDeleted isLive), opened]
    rcases outcome with ⟨effect, accepted, _⟩ | ⟨pin, isPin, replaces, same, _⟩ |
      ⟨host, password, proxyPassword, totpSecret, targetPassword, isHost, misses, rowOf,
        deletedAt, _, _⟩
    · exact writesRegister_of_saves isLive opened effect accepted
    · subst isPin
      refine writesRegister_of_refused isLive opened replaces (fun key => ?_) same.deletedAt
      rw [same.rowOf]
      cases before.vault.rowOf key <;> rfl
    · subst isHost
      exact writesRegister_of_refused isLive opened misses rowOf deletedAt

end Turns

/-! ### The batch -/

section Batch

variable {Bytes : Type} (codec : Codec Bytes) (secret : SharedSecret) (now : Nat → Stamp)
  (vault : VaultStore)

/-- The turns of a batch, each with the state it finds. -/
def batchTurns (records : List (SyncRecord Bytes)) : List (ApplyState × SyncRecord Bytes) :=
  meetings codec secret vault.localStamps now 0 ⟨vault, none, []⟩ records

/-- Up to here the loop has left every entity as its register says. -/
def FollowsRegisters (records : List (SyncRecord Bytes)) : Prop :=
  ∀ key, (registerAfter codec secret vault (batchTurns codec secret now vault records) key).held =
    some ((appliedState codec secret now vault records).vault.held key)

/-- The greatest-stamped version of every entity is there throughout a batch, and at its end. -/
structure GreatestThroughout (records : List (SyncRecord Bytes)) : Prop where
  turns : ∀ earlier, earlier <+: records → FollowsRegisters codec secret now vault earlier
  batch : LeavesGreatest codec secret now vault records

/-- Every record keeps the order in its turn, and the groups stored by the end of a batch that
carries any have no parent cycle. -/
structure BatchKeepsOrder (records : List (SyncRecord Bytes)) : Prop where
  turns : ∀ earlier record later, records = earlier ++ record :: later →
    KeepsOrder codec secret vault.localStamps
      ((registerAfter codec secret vault (batchTurns codec secret now vault earlier)
        record.key).isBefore record.updatedAt)
      (appliedState codec secret now vault earlier) record
  acyclic : (∃ record ∈ records, record.entityType = .group) →
    ∀ id, ¬ OnCycle (appliedState codec secret now vault records).vault.parentOf id

variable {codec secret now vault}

theorem applyLoop_snoc {localStamps : EntityKey → Option Stamp} (turn : Nat) (state : ApplyState)
    (records : List (SyncRecord Bytes)) (record : SyncRecord Bytes) :
    applyLoop codec secret localStamps now turn state (records ++ [record]) =
      applyRecord codec secret localStamps (now (turn + records.length))
        (applyLoop codec secret localStamps now turn state records) record := by
  induction records generalizing turn state with
  | nil => rfl
  | cons first records inductionHypothesis =>
    rw [List.cons_append, applyLoop, applyLoop, inductionHypothesis, List.length_cons,
      Nat.add_assoc, Nat.add_comm 1]

theorem meetings_snoc {localStamps : EntityKey → Option Stamp} (turn : Nat) (state : ApplyState)
    (records : List (SyncRecord Bytes)) (record : SyncRecord Bytes) :
    meetings codec secret localStamps now turn state (records ++ [record]) =
      meetings codec secret localStamps now turn state records ++
        [(applyLoop codec secret localStamps now turn state records, record)] := by
  induction records generalizing turn state with
  | nil => rfl
  | cons first records inductionHypothesis =>
    rw [List.cons_append, meetings, meetings, inductionHypothesis]
    rfl

theorem followsRegisters_snoc {earlier : List (SyncRecord Bytes)} {record : SyncRecord Bytes}
    (follows : FollowsRegisters codec secret now vault earlier) :
    FollowsRegisters codec secret now vault (earlier ++ [record]) ↔
      KeepsOrder codec secret vault.localStamps
        ((registerAfter codec secret vault (batchTurns codec secret now vault earlier)
          record.key).isBefore record.updatedAt)
        (appliedState codec secret now vault earlier) record := by
  rw [← writesRegister_iff (now (0 + earlier.length)) (passes_of_isBefore rfl)]
  unfold FollowsRegisters WritesRegister
  have after : appliedState codec secret now vault (earlier ++ [record]) =
      applyRecord codec secret vault.localStamps (now (0 + earlier.length))
        (appliedState codec secret now vault earlier) record := applyLoop_snoc ..
  have turns : batchTurns codec secret now vault (earlier ++ [record]) =
      batchTurns codec secret now vault earlier ++
        [(appliedState codec secret now vault earlier, record)] := meetings_snoc ..
  rw [after, turns]
  constructor
  · intro holds
    refine ⟨fun key different => ?_, ?_⟩
    · have there := holds key
      rw [registerAfter_snoc, if_neg (Ne.symm different), follows key] at there
      exact (Option.some.inj there).symm
    · have here := holds record.key
      rw [registerAfter_snoc, if_pos rfl, Register.write] at here
      rw [← here]
      split
      · rfl
      · exact follows record.key
  · rintro ⟨others, own⟩ key
    rw [registerAfter_snoc]
    by_cases isKey : record.key = key
    · subst isKey
      rw [if_pos rfl, own, Register.write]
      split
      · rfl
      · exact follows record.key
    · rw [if_neg isKey, others key (Ne.symm isKey)]
      exact follows key

/-- The greatest-stamped version of every entity is there throughout a batch exactly when the batch
keeps the order. -/
theorem greatestThroughout_iff (codec : Codec Bytes) (secret : SharedSecret) (now : Nat → Stamp)
    (vault : VaultStore) (records : List (SyncRecord Bytes)) :
    GreatestThroughout codec secret now vault records ↔
      BatchKeepsOrder codec secret now vault records := by
  have turns : (∀ earlier, earlier <+: records →
        FollowsRegisters codec secret now vault earlier) ↔ _ :=
    forall_prefix_iff (fun _ => rfl) (fun _ _ follows => followsRegisters_snoc follows) records
  have hasGroup : (records.any fun record => decide (record.entityType = .group)) = true ↔
      ∃ record ∈ records, record.entityType = .group := by
    simp
  constructor
  · rintro ⟨throughout, leaves⟩
    refine ⟨turns.mp throughout, fun grouped => ?_⟩
    have repaired := leaves _ _ rfl
    rw [if_pos (hasGroup.mpr grouped)] at repaired
    refine (VaultStore.keepsNewer_breakGroupCycles _).mp
      (VaultStore.keepsNewer_of_sameRows fun key => ?_)
    -- The registers say of the repaired vault what they say of the one before.
    have same := (repaired key).symm.trans (throughout records List.prefix_rfl key)
    exact (Held.mk.inj (Option.some.inj same)).1
  · rintro ⟨inOrder, acyclic⟩
    have throughout := turns.mpr inOrder
    refine ⟨throughout, fun after warnings applied key => ?_⟩
    have follows := throughout records List.prefix_rfl key
    simp only [applyRecords, Except.ok.injEq, Prod.mk.injEq] at applied
    rw [← applied.1]
    split
    · rename_i grouped
      rw [VaultStore.breakGroupCycles_of_acyclic (acyclic (hasGroup.mp grouped))]
      exact follows
    · exact follows

/-! ### Two records of one snippet -/

/-- Of two records of one snippet, both later than what is stored, the last one in the batch is
there afterwards, whichever is the greater. -/
theorem not_leavesGreatest_twoSnippets :
    ¬ LeavesGreatest Codec.symbolic "secret" (fun _ => 70) twoSnippets
        [snippetRecord 60 ⟨1, 60, "newer"⟩, snippetRecord 30 ⟨1, 30, "older"⟩] ∧
      (appliedState Codec.symbolic "secret" (fun _ => 70) twoSnippets
        [snippetRecord 60 ⟨1, 60, "newer"⟩, snippetRecord 30 ⟨1, 30, "older"⟩]).vault.rowOf
          (.snippet, 1) = some (.snippet ⟨1, 30, "older"⟩) ∧
      (appliedState Codec.symbolic "secret" (fun _ => 70) twoSnippets
        [snippetRecord 30 ⟨1, 30, "older"⟩, snippetRecord 60 ⟨1, 60, "newer"⟩]).vault.rowOf
          (.snippet, 1) = some (.snippet ⟨1, 60, "newer"⟩) := by
  refine ⟨fun leaves => ?_, rfl, rfl⟩
  exact absurd (leaves _ _ rfl (.snippet, 1)) (by decide)

end Batch

end Oryxis

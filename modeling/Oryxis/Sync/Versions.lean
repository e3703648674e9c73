/-
This file asks when a batch moves the store forward only: when no stored entity
gives way to a version that is not newer, and no row is written under a key other
than that of the record whose stamp was compared.

The gate compares the header of a record with the stamps the vault held before the
batch. What is saved is named, and dated, by the payload, and finds the row that is
stored by then. So the payload of a record that passes has to carry the record's
own key and to be newer than what its turn finds, which a second record of one key
need not be. The rows an operation takes along are the other way to write under
another key: what refers to a deleted entity, and the pin a saved one displaces.
The repair of the group tree, at last, keeps every stamp.
-/

import Oryxis.Sync.GroupRepair
import Oryxis.Sync.Turns

namespace Oryxis

open Library Library.Parents

namespace VaultStore

/-! ### Moving forward -/

/-- No stored entity is replaced by a version that is not newer. -/
def KeepsNewer (before after : VaultStore) : Prop :=
  ∀ key stored row, before.rowOf key = some stored → after.rowOf key = some row →
    row ≠ stored → stored.updatedAt < row.updatedAt

/-- No row of another key is written or deleted. -/
def WritesOnly (key : EntityKey) (before after : VaultStore) : Prop :=
  ∀ other, other ≠ key → after.rowOf other = before.rowOf other

/-- A step that compared the stamp of `key`. -/
def Advances (key : EntityKey) (before after : VaultStore) : Prop :=
  KeepsNewer before after ∧ WritesOnly key before after

variable {after : VaultStore}

variable {before : VaultStore}

theorem keepsNewer_of_sameRows (same : ∀ other, after.rowOf other = before.rowOf other) :
    KeepsNewer before after := by
  intro other stored row found afterFound different
  rw [same, found] at afterFound
  exact absurd (Option.some.inj afterFound).symm different

variable {key : EntityKey}

theorem advances_of_sameRows (same : ∀ other, after.rowOf other = before.rowOf other) :
    Advances key before after :=
  ⟨keepsNewer_of_sameRows same, fun other _ => same other⟩

/-- Deleting `gone` takes no other row along, and changes none. -/
def DeletesAlone (vault : VaultStore) (gone : EntityKey) : Prop :=
  ∀ key row, key ≠ gone → vault.rowOf key = some row →
    row.orphanedBy gone = false ∧ row.detach gone = row

variable {gone : EntityKey}

/-- No row is taken along by a group. -/
theorem deletesAlone_of_group (vault : VaultStore) (isGroup : gone.1 = .group) :
    vault.DeletesAlone gone := by
  intro key row _ _
  refine ⟨orphanedBy_of_ne ?_ row, detach_of_ne ?_ ?_ ?_ row⟩ <;>
    · rw [isGroup]
      simp

variable {vault : VaultStore} {now : Stamp}

variable {deleted : VaultStore}

/-- A delete leaves the other rows alone where none refers to what it deletes. -/
theorem writesOnly_iff_deletesAlone (effect : vault.Deletes gone now deleted) :
    WritesOnly gone vault deleted ↔ vault.DeletesAlone gone := by
  constructor
  · intro own key row different found
    have same := own key different
    rw [effect.rowOf, if_neg different, found] at same
    cases orphaned : row.orphanedBy gone with
    | true => simp [Option.filter_some, orphaned] at same
    | false => exact ⟨rfl, by simpa [Option.filter_some, orphaned] using same⟩
  · intro alone key different
    rw [effect.rowOf, if_neg different]
    cases found : vault.rowOf key with
    | none => rfl
    | some row =>
      obtain ⟨kept, untouched⟩ := alone key row different found
      simp [Option.filter_some, kept, untouched]

theorem advances_iff_deletesAlone (effect : vault.Deletes gone now deleted) :
    Advances gone vault deleted ↔ vault.DeletesAlone gone := by
  constructor
  · rintro ⟨_, own⟩
    exact (writesOnly_iff_deletesAlone effect).mp own
  · intro alone
    have own : WritesOnly gone vault deleted := (writesOnly_iff_deletesAlone effect).mpr alone
    refine ⟨fun key stored row found afterFound different => ?_, own⟩
    by_cases same : key = gone
    · rw [effect.rowOf, if_pos same] at afterFound
      cases afterFound
    · rw [own key same, found] at afterFound
      exact absurd (Option.some.inj afterFound).symm different

/-- Saving `row` in a turn that compared the stamp of `key` moves forward. -/
structure SaveFits (vault : VaultStore) (key : EntityKey) (row : Row) : Prop where
  own : row.key = key ∨ vault.rowOf row.key = some row
  newer : ∀ stored, vault.rowOf row.key = some stored → row = stored ∨
    stored.updatedAt < row.updatedAt
  alone : ∀ other stored, other ≠ row.key → other ≠ key → vault.rowOf other = some stored →
    Table.displaces Row.key Row.endpoint row stored = false

theorem advances_iff_saveFits {saved : VaultStore} {row : Row} (effect : vault.Saves row now saved) :
    Advances key vault saved ↔ vault.SaveFits key row := by
  constructor
  · rintro ⟨newer, own⟩
    refine ⟨?_, fun stored found => ?_, fun other stored notRow notKey found => ?_⟩
    · by_cases same : row.key = key
      · exact .inl same
      · refine .inr ?_
        rw [← own row.key same]
        exact effect.rowOf_self
    · by_cases same : row = stored
      · exact .inl same
      · exact .inr (newer row.key stored row found effect.rowOf_self same)
    · have same := own other notKey
      rw [effect.rowOf, if_neg notRow, found] at same
      cases displaced : Table.displaces Row.key Row.endpoint row stored with
      | false => rfl
      | true => simp [Option.filter_some, displaced] at same
  · intro fits
    have elsewhere : ∀ other, other ≠ row.key → other ≠ key →
        saved.rowOf other = vault.rowOf other := by
      intro other notRow notKey
      rw [effect.rowOf, if_neg notRow]
      cases found : vault.rowOf other with
      | none => rfl
      | some stored => rw [Option.filter_some, fits.alone other stored notRow notKey found]; rfl
    constructor
    · intro other stored after found afterFound different
      by_cases isRow : other = row.key
      · subst isRow
        rw [effect.rowOf_self] at afterFound
        cases afterFound
        exact (fits.newer stored found).resolve_left different
      · -- What is stored elsewhere is there as it was, or gone.
        rw [effect.rowOf, if_neg isRow, found, Option.filter_some] at afterFound
        split at afterFound
        · exact absurd (Option.some.inj afterFound).symm different
        · cases afterFound
    · intro other notKey
      by_cases isRow : other = row.key
      · subst isRow
        rw [effect.rowOf_self]
        exact (fits.own.resolve_left notKey).symm
      · exact elsewhere other isRow notKey

/-- The secrets a refused host leaves behind change no row. -/
theorem advances_iff_of_updateSecrets {id : Uuid} {change : ConnectionSecrets → ConnectionSecrets}
    (rowOf : ∀ other, after.rowOf other = (vault.rowOf other).map (Row.updateSecrets id change)) :
    Advances key vault after ↔
      ∀ stored, vault.rowOf (.connection, id) = some stored →
        stored.updateSecrets id change = stored := by
  have sameStamp : ∀ row : Row, (row.updateSecrets id change).updatedAt = row.updatedAt := by
    intro row
    cases row with
    | connection host secrets =>
      simp only [Row.updateSecrets]
      split <;> rfl
    | _ => rfl
  constructor
  · rintro ⟨newer, _⟩ stored found
    by_contra different
    have later := newer _ stored _ found (by rw [rowOf, found]; rfl) different
    rw [sameStamp] at later
    exact Int.lt_irrefl _ later
  · intro unchanged
    refine advances_of_sameRows fun other => ?_
    rw [rowOf]
    cases found : vault.rowOf other with
    | none => rfl
    | some stored =>
      by_cases isHost : other = (.connection, id)
      · subst isHost
        rw [Option.map_some, unchanged stored found]
      · rw [Option.map_some, updateSecrets_of_key_ne change (by rwa [key_of_rowOf found])]

theorem breakGroupCycles_of_acyclic (acyclic : ∀ id, ¬ OnCycle vault.parentOf id) :
    vault.breakGroupCycles = vault := by
  have noBreakers : Group.cycleBreakers vault.listGroups = [] :=
    Group.cycleBreakers_eq_nil (by rwa [parentIn_listGroups])
  rw [breakGroupCycles, noBreakers]
  rfl

/-- The repair keeps every stamp, so it moves forward only where it has nothing to do. -/
theorem keepsNewer_breakGroupCycles (vault : VaultStore) :
    KeepsNewer vault vault.breakGroupCycles ↔ ∀ id, ¬ OnCycle vault.parentOf id := by
  constructor
  · intro newer id cyclic
    obtain ⟨breaker, reached, cutOff, _⟩ := (repairs_breakGroupCycles vault).oneEdge id cyclic
    obtain ⟨above, up, _⟩ := Relation.TransGen.head'_iff.mp (onCycle_of_above cyclic reached).1
    obtain ⟨group, stored, parent⟩ := Option.bind_eq_some_iff.mp up
    have sameStamp := vault.updatedAt_breakGroupCycles breaker
    rw [stored, Option.map_some] at sameStamp
    obtain ⟨repaired, found, equal⟩ := Option.map_eq_some_iff.mp sameStamp
    have later := newer _ _ _ ((vault.groupOf_eq_some_iff breaker group).mp stored)
      ((groupOf_eq_some_iff _ breaker repaired).mp found) ?_
    · change group.updatedAt < repaired.updatedAt at later
      rw [equal] at later
      exact absurd later (Int.lt_irrefl _)
    · rintro same
      cases same
      rw [parentOf, found, Option.bind_some, parent] at cutOff
      cases cutOff
  · intro acyclic
    rw [breakGroupCycles_of_acyclic acyclic]
    exact keepsNewer_of_sameRows fun _ => rfl

end VaultStore

/-! ### One turn -/

section Turns

variable {Bytes : Type}

/-- Saving a payload moves forward: where the save is refused, the secrets that are set all the
same are those the row has. -/
def PayloadFits (before : ApplyState) (key : EntityKey) (payload : SyncPayload) : Prop :=
  if before.vault.refuses payload then
    match payload with
    | .connection host _ proxyPassword totpSecret targetPassword =>
      ∀ stored, before.vault.rowOf (.connection, host.id) = some stored →
        stored.updateSecrets host.id
          (VaultStore.wireSecrets proxyPassword totpSecret targetPassword) = stored
    | _ => True
  else before.vault.SaveFits key (before.vault.received (before.lastUsed payload) payload)

/-- A record that passes the gate is fit to be carried out in the state its turn finds. -/
def RecordFits (codec : Codec Bytes) (secret : SharedSecret)
    (localStamps : EntityKey → Option Stamp) (before : ApplyState) (record : SyncRecord Bytes) :
    Prop :=
  passes localStamps record →
    if record.isDeleted then before.vault.DeletesAlone record.key
    else ∀ payload, codec.openPayload secret record = some payload →
      PayloadFits before record.key payload

variable {before : ApplyState}

theorem advances_iff_payloadFits {after : ApplyState} {key : EntityKey} {now : Stamp}
    {payload : SyncPayload} (outcome : PayloadOutcome before key now payload after) :
    before.vault.Advances key after.vault ↔ PayloadFits before key payload := by
  unfold PayloadFits
  rcases outcome with ⟨effect, accepted, _⟩ | ⟨pin, isPin, replaces, same, _⟩ |
    ⟨host, password, proxyPassword, totpSecret, targetPassword, isHost, misses, rowOf, _, _, _⟩
  · rw [accepted, if_neg Bool.false_ne_true]
    exact VaultStore.advances_iff_saveFits effect
  · subst isPin
    have refused : before.vault.refuses (.knownHost pin) = true := replaces
    rw [if_pos refused]
    exact iff_of_true (VaultStore.advances_of_sameRows same.rowOf) trivial
  · subst isHost
    have refused : before.vault.refuses
        (.connection host password proxyPassword totpSecret targetPassword) = true := misses
    rw [if_pos refused]
    exact VaultStore.advances_iff_of_updateSecrets rowOf

theorem advances_iff_recordFits {codec : Codec Bytes} {secret : SharedSecret}
    {localStamps : EntityKey → Option Stamp} {record : SyncRecord Bytes} (now : Stamp) :
    before.vault.Advances record.key
        (applyRecord codec secret localStamps now before record).vault ↔
      RecordFits codec secret localStamps before record := by
  unfold RecordFits
  rcases turnOutcome_applyRecord codec secret localStamps now before record with
    ⟨held, same⟩ | ⟨fresh, isDeleted, effect, _, _⟩ | ⟨fresh, isDeleted, isGroup, inUse, same⟩ |
    ⟨fresh, isLive, closed, warning, same⟩ | ⟨fresh, isLive, payload, opened, outcome, _⟩
  · rw [same]
    exact iff_of_true (VaultStore.advances_of_sameRows fun _ => rfl) fun passed =>
      absurd passed held
  · rw [forall_prop_of_true fresh, if_pos isDeleted]
    exact VaultStore.advances_iff_deletesAlone effect
  · rw [forall_prop_of_true fresh, if_pos isDeleted, same]
    exact iff_of_true (VaultStore.advances_of_sameRows fun _ => rfl)
      (before.vault.deletesAlone_of_group isGroup)
  · rw [forall_prop_of_true fresh, if_neg (by rw [isLive]; exact Bool.false_ne_true), same]
    refine iff_of_true (VaultStore.advances_of_sameRows fun _ => rfl) fun payload opened => ?_
    rw [closed] at opened
    cases opened
  · rw [forall_prop_of_true fresh, if_neg (by rw [isLive]; exact Bool.false_ne_true),
      advances_iff_payloadFits outcome]
    refine ⟨fun fits other otherOpened => ?_, fun fits => fits payload opened⟩
    rw [opened] at otherOpened
    cases otherOpened
    exact fits

/-! ### The batch -/

/-- Every turn of a batch moves forward under its record's key, and so does what follows them. -/
structure NeverStepsBack (codec : Codec Bytes) (secret : SharedSecret) (now : Nat → Stamp)
    (vault : VaultStore) (records : List (SyncRecord Bytes)) : Prop where
  turns : ∀ before record,
    (before, record) ∈ meetings codec secret vault.localStamps now 0 ⟨vault, none, []⟩ records →
    ∀ reading, before.vault.Advances record.key
      (applyRecord codec secret vault.localStamps reading before record).vault
  repair : ∀ after warnings,
    applyRecords codec vault records (some secret) now = .ok (after, warnings) →
    VaultStore.KeepsNewer (appliedState codec secret now vault records).vault after

/-- Every record that passes is fit for its turn, and the groups stored by the end of a batch that
carries any have no parent cycle. -/
structure BatchFits (codec : Codec Bytes) (secret : SharedSecret) (now : Nat → Stamp)
    (vault : VaultStore) (records : List (SyncRecord Bytes)) : Prop where
  turns : ∀ before record,
    (before, record) ∈ meetings codec secret vault.localStamps now 0 ⟨vault, none, []⟩ records →
    RecordFits codec secret vault.localStamps before record
  acyclic : (∃ record ∈ records, record.entityType = .group) →
    ∀ id, ¬ OnCycle (appliedState codec secret now vault records).vault.parentOf id

/-- A batch never steps back exactly when all of it fits. -/
theorem neverStepsBack_iff_batchFits (codec : Codec Bytes) (secret : SharedSecret)
    (now : Nat → Stamp) (vault : VaultStore) (records : List (SyncRecord Bytes)) :
    NeverStepsBack codec secret now vault records ↔
      BatchFits codec secret now vault records := by
  have hasGroup : (records.any fun record => decide (record.entityType = .group)) = true ↔
      ∃ record ∈ records, record.entityType = .group := by
    simp
  have repaired : (∀ after warnings,
      applyRecords codec vault records (some secret) now = .ok (after, warnings) →
        VaultStore.KeepsNewer (appliedState codec secret now vault records).vault after) ↔
      ((∃ record ∈ records, record.entityType = .group) →
        ∀ id, ¬ OnCycle (appliedState codec secret now vault records).vault.parentOf id) := by
    rw [← hasGroup, ← VaultStore.keepsNewer_breakGroupCycles]
    simp only [applyRecords, Except.ok.injEq, Prod.mk.injEq]
    constructor
    · intro newer grouped
      exact newer _ _ ⟨if_pos grouped, rfl⟩
    · rintro newer after warnings ⟨rfl, _⟩
      split
      · rename_i grouped
        exact newer grouped
      · exact VaultStore.keepsNewer_of_sameRows fun _ => rfl
  constructor
  · rintro ⟨turns, repair⟩
    exact ⟨fun before record meets =>
      (advances_iff_recordFits 0).mp (turns before record meets 0), repaired.mp repair⟩
  · rintro ⟨turns, acyclic⟩
    exact ⟨fun before record meets reading =>
      (advances_iff_recordFits reading).mpr (turns before record meets), repaired.mpr acyclic⟩

/-! ### Batches that step back -/

/-- A vault with two snippets. -/
def twoSnippets : VaultStore :=
  ((VaultStore.empty false true).saveSnippet ⟨1, 10, "one"⟩).saveSnippet ⟨2, 50, "two"⟩

/-- A record of snippet 1 that carries `payload`. -/
def snippetRecord (updatedAt : Stamp) (payload : Snippet) : SyncRecord WireTerm :=
  ⟨.snippet, 1, updatedAt, false, .sealed "secret" (.json (.snippet payload))⟩

/-- A header that names one snippet lets a payload overwrite another one with an older version.
And of two records of one snippet the older overwrites the newer, as the first was not there yet
when the stamps were read. -/
theorem not_neverStepsBack :
    ¬ NeverStepsBack Codec.symbolic "secret" (fun _ => 70) twoSnippets
        [snippetRecord 60 ⟨2, 20, "older"⟩] ∧
      ¬ NeverStepsBack Codec.symbolic "secret" (fun _ => 70) twoSnippets
        [snippetRecord 60 ⟨1, 60, "newer"⟩, snippetRecord 30 ⟨1, 30, "older"⟩] := by
  constructor
  · intro forward
    have turn := forward.turns _ _ (List.mem_cons_self ..) 70
    exact absurd (turn.2 (.snippet, 2) (by decide)) (by decide)
  · intro forward
    have turn := forward.turns _ _ (List.mem_cons_of_mem _ (List.mem_cons_self ..)) 70
    exact absurd (turn.1 (.snippet, 1) (.snippet ⟨1, 60, "newer"⟩) (.snippet ⟨1, 30, "older"⟩)
      (by decide) (by decide) (by decide)) (by decide)

end Turns

end Oryxis

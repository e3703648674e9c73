/-
This file proves when merging a snapshot loses nothing.

The vault is tracked through the turns by what stands after the records so far: a
row of it, up to what devices do not share and references to what is gone; nothing
where nothing stands; and where the newer record is still to come, possibly nothing
because another turn has taken the row along. A turn that does no harm keeps this.
A turn that does harm is not made good: what was refused stays in the log, and a
row that was taken along and is not to come stays away.
-/

import Oryxis.Sync.Snapshot

namespace Oryxis

open Library List

/-! ### What agreeing rows have in common -/

section Agreeing

variable {gone : List EntityKey} {row : Row}

theorem connection_of_agrees {host : Connection} {secrets : ConnectionSecrets}
    (agrees : (Row.connection host secrets).AgreesUpTo gone false row) :
    ∃ other otherSecrets, row = .connection other otherSecrets ∧ other.groupId = host.groupId := by
  cases row with
  | connection other otherSecrets =>
    refine ⟨other, otherSecrets, rfl, ?_⟩
    unfold Row.AgreesUpTo at agrees
    simp only [Row.shared, Row.stored, Row.toPayload, SyncPayload.forget,
      SyncPayload.connection.injEq] at agrees
    exact (congrArg Connection.groupId agrees.1).symm
  | _ => cases agrees

theorem knownHost_of_agrees {pin : KnownHost}
    (agrees : (Row.knownHost pin).AgreesUpTo gone false row) : row = .knownHost pin := by
  cases row with
  | knownHost other =>
    unfold Row.AgreesUpTo at agrees
    simp only [Row.shared, Row.stored, Row.toPayload, SyncPayload.forget,
      SyncPayload.knownHost.injEq] at agrees
    rw [agrees]
  | _ => cases agrees

/-- Without a parent, too, they are the same. -/
theorem Row.agreesUpTo_withoutParent {other : Row} (agrees : row.AgreesUpTo gone false other) :
    row.withoutParent.AgreesUpTo gone false other.withoutParent := by
  have carried : ∀ row : Row, (row.withoutParent.shared false).forget gone =
      match (row.shared false).forget gone with
      | .group entity => .group { entity with parentId := none }
      | payload => payload := by
    intro row
    cases row <;> rfl
  unfold AgreesUpTo
  rw [carried row, carried other, agrees]

end Agreeing

theorem takesAlong_type {source : VaultStore} {key : EntityKey} {row : Row}
    (takes : source.TakesAlong key row) :
    row.entityType = .portForwardRule ∨ row.entityType = .knownHost := by
  unfold VaultStore.TakesAlong at takes
  split at takes
  · cases row with
    | portForwardRule rule => exact .inl rfl
    | _ => cases takes
  · cases row with
    | knownHost pin => exact .inr rfl
    | _ => exact absurd rfl takes.1

/-! ### Tracking the vault -/

/-- What the vault has after the records of `earlier`. -/
structure Tracks (gone : List EntityKey) (target source : VaultStore) (earlier : List EntityKey)
    (vault : VaultStore) : Prop where
  absent : ∀ key, target.standing source earlier key = none → vault.rowOf key = none
  present : ∀ key row, target.standing source earlier key = some row →
    (∃ own, vault.rowOf key = some own ∧ row.IsVersion gone false own) ∨
      (vault.rowOf key = none ∧ target.Awaited source earlier key ∧
        ∃ other ∈ earlier, target.Outdated source other ∧ source.TakesAlong other row)
  tombstoned : ∀ key, target.standing source earlier key = none →
    ¬ target.Awaited source earlier key → target.Knows key ∨ source.Knows key →
      vault.deletedAt key ≠ none
  foreignKeys : vault.foreignKeys = target.foreignKeys

section Tracking

variable {gone earlier : List EntityKey} {target source vault : VaultStore} {key : EntityKey}

theorem tracks_nil (gone : List EntityKey) (target source : VaultStore) :
    Tracks gone target source [] target where
  absent key none := by rwa [VaultStore.standing_of_not_mem not_mem_nil] at none
  present key row stands := by
    rw [VaultStore.standing_of_not_mem not_mem_nil] at stands
    exact .inl ⟨row, stands, row.isVersion_refl gone false⟩
  tombstoned key none settled known := by
    rw [VaultStore.standing_of_not_mem not_mem_nil] at none
    have knows : target.Knows key := by
      cases known with
      | inl knows => exact knows
      | inr sourceKnows =>
        -- Otherwise the source would be ahead.
        by_contra unknown
        obtain ⟨stamp, held⟩ := (source.knows_iff_localStamps key).mp sourceKnows
        refine settled ⟨not_mem_nil, stamp, held, fun localStamp isLocal => ?_⟩
        exact absurd ((target.knows_iff_localStamps key).mpr ⟨localStamp, isLocal⟩) unknown
    exact knows.resolve_left fun stored => stored none
  foreignKeys := rfl

variable (tracks : Tracks gone target source earlier vault)

include tracks

/-- What stands is what is stored, where no turn can have taken it along. -/
theorem Tracks.stored {row : Row} (stands : target.standing source earlier key = some row)
    (notTaken : ∀ other ∈ earlier, target.Outdated source other → ¬ source.TakesAlong other row) :
    ∃ own, vault.rowOf key = some own ∧ row.IsVersion gone false own := by
  cases tracks.present key row stands with
  | inl present => exact present
  | inr taken =>
    obtain ⟨_, _, other, member, outdated, takes⟩ := taken
    exact absurd takes (notTaken other member outdated)

/-- What is stored stands. -/
theorem Tracks.stands {own : Row} (stored : vault.rowOf key = some own) :
    ∃ row, target.standing source earlier key = some row ∧ row.IsVersion gone false own := by
  cases stands : target.standing source earlier key with
  | none =>
    rw [tracks.absent key stands] at stored
    cases stored
  | some row =>
    refine ⟨row, rfl, ?_⟩
    cases tracks.present key row stands with
    | inl present =>
      obtain ⟨other, found, isVersion⟩ := present
      rw [stored] at found
      cases found
      exact isVersion
    | inr taken =>
      rw [stored] at taken
      cases taken.1

/-- A group or a host is never taken along. -/
theorem Tracks.stored_of_type {row : Row} (stands : target.standing source earlier key = some row)
    (notRule : row.entityType ≠ .portForwardRule) (notPin : row.entityType ≠ .knownHost) :
    ∃ own, vault.rowOf key = some own ∧ row.IsVersion gone false own := by
  refine tracks.stored stands fun other _ _ takes => ?_
  cases takesAlong_type takes with
  | inl isRule => exact notRule isRule
  | inr isPin => exact notPin isPin

end Tracking

/-! ### Accepted is carried out -/

section Acceptance

variable {Bytes : Type} {codec : Codec Bytes} {secret : SharedSecret}
  {gone earlier : List EntityKey} {target source : VaultStore} {before : ApplyState}
  {record : SyncRecord Bytes}

/-- No pin of this endpoint has been taken along when its own newer pin has its turn. -/
theorem Tracks.stored_pin (tracks : Tracks gone target source earlier before.vault)
    {key pinKey : EntityKey} {pin other : KnownHost} (absent : key ∉ earlier)
    (sent : source.rowOf key = some (.knownHost pin))
    (stands : target.standing source earlier pinKey = some (.knownHost other))
    (same : other.triple = pin.triple) :
    before.vault.rowOf pinKey = some (.knownHost other) := by
  simp only [KnownHost.triple, Prod.mk.injEq] at same
  have sameEndpoint : (Row.knownHost other).endpoint = (Row.knownHost pin).endpoint := by
    simp [Row.endpoint, same]
  have notTaken : ∀ taker ∈ earlier, target.Outdated source taker →
      ¬ source.TakesAlong taker (.knownHost other) := by
    intro taker member _ takes
    unfold VaultStore.TakesAlong at takes
    split at takes
    · cases takes
    · rename_i own takerRow
      -- The source has one pin of the endpoint.
      have isPin := VaultStore.endpoint_unique takerRow sent
        (takes.2.symm.trans sameEndpoint) rfl
      subst isPin
      exact absent ((VaultStore.key_of_rowOf takerRow).symm.trans (VaultStore.key_of_rowOf sent) ▸
        member)
  obtain ⟨own, stored, isVersion⟩ := tracks.stored stands notTaken
  have isOwn := knownHost_of_agrees isVersion.1.symm
  rw [stored, isOwn]

theorem groupInUse_iff (tracks : Tracks gone target source earlier before.vault)
    (enforced : target.foreignKeys = true) {id : Uuid} (absent : (EntityType.group, id) ∉ earlier) :
    before.vault.groupInUse id = true ↔ target.rowOf (.group, id) ≠ none ∧
      ∃ hostKey host secrets,
        target.standing source earlier hostKey = some (.connection host secrets) ∧
          host.groupId = some id := by
  have isGroup : ∀ {row : Row}, target.rowOf (.group, id) = some row → row.entityType = .group :=
    fun stored => congrArg Prod.fst (VaultStore.key_of_rowOf stored)
  unfold VaultStore.groupInUse
  rw [Bool.and_eq_true, Bool.and_eq_true, tracks.foreignKeys, enforced, any_eq_true,
    Option.isSome_iff_ne_none]
  constructor
  · rintro ⟨⟨_, stored⟩, host, listed, inGroup⟩
    obtain ⟨secrets, hostStored⟩ := (before.vault.mem_listConnections host).mp listed
    obtain ⟨row, hostStands, isVersion⟩ := tracks.stands hostStored
    obtain ⟨other, otherSecrets, isHost, sameGroup⟩ := connection_of_agrees isVersion.1
    refine ⟨fun noRow => stored (tracks.absent _ ?_), _, other, otherSecrets, isHost ▸ hostStands,
      sameGroup.trans (of_decide_eq_true inGroup)⟩
    rw [VaultStore.standing_of_not_mem absent]
    exact noRow
  · rintro ⟨stored, hostKey, host, secrets, hostStands, inGroup⟩
    obtain ⟨row, isRow⟩ := Option.ne_none_iff_exists'.mp stored
    obtain ⟨own, ownStored, _⟩ := tracks.stored_of_type
      ((VaultStore.standing_of_not_mem absent).trans isRow)
      (by rw [isGroup isRow]; decide) (by rw [isGroup isRow]; decide)
    obtain ⟨hostOwn, hostStored, isVersion⟩ := tracks.stored_of_type hostStands
      (fun never => by cases never) (fun never => by cases never)
    obtain ⟨other, otherSecrets, isHost, sameGroup⟩ := connection_of_agrees isVersion.1.symm
    have rowKey := VaultStore.key_of_rowOf hostStored
    refine ⟨⟨rfl, by rw [ownStored]; exact Option.some_ne_none own⟩, other, ?_, ?_⟩
    · refine (before.vault.mem_listConnections other).mpr ⟨otherSecrets, ?_⟩
      rw [isHost] at hostStored rowKey
      subst rowKey
      exact hostStored
    · exact decide_eq_true (sameGroup.trans inGroup)

theorem missesGroup_iff (tracks : Tracks gone target source earlier before.vault)
    (enforced : target.foreignKeys = true) (host : Connection) :
    before.vault.missesGroup host = false ↔ ∀ groupId, host.groupId = some groupId →
      target.standing source earlier (.group, groupId) ≠ none := by
  unfold VaultStore.missesGroup
  cases host.groupId with
  | none => simp
  | some groupId =>
    dsimp only
    rw [tracks.foreignKeys, enforced, Bool.true_and, Option.isNone_eq_false_iff,
      Option.isSome_iff_ne_none]
    constructor
    · intro stored other isOther noneStands
      cases isOther
      exact stored (tracks.absent _ noneStands)
    · intro stands noRow
      obtain ⟨row, groupStands⟩ := Option.ne_none_iff_exists'.mp (stands groupId rfl)
      have isGroup : row.entityType = .group := by
        unfold VaultStore.standing at groupStands
        split at groupStands
        · exact congrArg Prod.fst (VaultStore.key_of_rowOf groupStands)
        · exact congrArg Prod.fst (VaultStore.key_of_rowOf groupStands)
      obtain ⟨own, ownStored, _⟩ := tracks.stored_of_type groupStands
        (by rw [isGroup]; decide) (by rw [isGroup]; decide)
      rw [noRow] at ownStored
      cases ownStored

theorem replacesLocalPin_iff (tracks : Tracks gone target source earlier before.vault)
    {key : EntityKey} {pin : KnownHost} (absent : key ∉ earlier)
    (sent : source.rowOf key = some (.knownHost pin)) :
    before.vault.replacesLocalPin pin = false ↔ ∀ pinKey other,
      target.standing source earlier pinKey = some (.knownHost other) →
        other.triple = pin.triple → other.fingerprint = pin.fingerprint := by
  constructor
  · intro accepted pinKey other stands same
    have stored := tracks.stored_pin absent sent stands same
    have rowKey := VaultStore.key_of_rowOf stored
    subst rowKey
    exact VaultStore.fingerprint_of_not_replacesLocalPin accepted
      ((before.vault.mem_listKnownHosts other).mpr stored) same
  · intro agrees
    unfold VaultStore.replacesLocalPin
    split
    · rename_i other found
      have isPin := find?_some found
      simp only [Bool.and_eq_true, decide_eq_true_eq] at isPin
      have stored := (before.vault.mem_listKnownHosts other).mp (mem_of_find?_eq_some found)
      obtain ⟨row, stands, isVersion⟩ := tracks.stands stored
      have isRow := knownHost_of_agrees isVersion.1
      rw [isRow] at stands
      have sameTriple : other.triple = pin.triple := by simp [KnownHost.triple, isPin]
      simp [agrees _ other stands sameTriple]
    · rfl

/-- In its turn a newer record is carried out exactly when it is accepted. -/
theorem carried_iff_accepted (tracks : Tracks gone target source earlier before.vault)
    (enforced : target.foreignKeys = true) (speaks : Speaks codec secret source record)
    (absent : record.key ∉ earlier) :
    Carried codec secret before record ↔ target.Accepted source earlier record.key := by
  unfold Carried VaultStore.Accepted
  cases stored : source.rowOf record.key with
  | none =>
    rw [if_pos (speaks.deleted.mpr stored)]
    dsimp only
    constructor
    · intro free isGroup targetRow hostKey host secrets stands inGroup
      have sameKey : record.key = (.group, record.entityId) := Prod.ext isGroup rfl
      refine free ⟨isGroup, (groupInUse_iff tracks enforced (sameKey ▸ absent)).mpr ?_⟩
      exact ⟨sameKey ▸ targetRow, hostKey, host, secrets, stands, inGroup⟩
    · rintro accepted ⟨isGroup, inUse⟩
      have sameKey : record.key = (.group, record.entityId) := Prod.ext isGroup rfl
      obtain ⟨targetRow, hostKey, host, secrets, stands, inGroup⟩ :=
        (groupInUse_iff tracks enforced (sameKey ▸ absent)).mp inUse
      exact accepted isGroup (sameKey ▸ targetRow) hostKey host secrets stands inGroup
  | some row =>
    have isLive : ¬ record.isDeleted = true := by
      rw [speaks.deleted, stored]
      exact Option.some_ne_none row
    have opened := speaks.opened row stored
    rw [if_neg isLive]
    have onlyPayload : (∃ payload, codec.openPayload secret record = some payload ∧
        before.vault.refuses payload = false) ↔
          before.vault.refuses (row.toPayload source.syncPasswords) = false := by
      rw [opened]
      exact ⟨fun ⟨payload, same, free⟩ => Option.some.inj same ▸ free, fun free => ⟨_, rfl, free⟩⟩
    rw [onlyPayload]
    cases row with
    | connection host secrets => exact missesGroup_iff tracks enforced _
    | knownHost pin => exact replacesLocalPin_iff tracks absent stored
    | _ => exact ⟨fun _ => trivial, fun _ => rfl⟩

end Acceptance

/-! ### One turn -/

section Turn

variable {Bytes : Type} {codec : Codec Bytes} {secret : SharedSecret}
  {gone earlier : List EntityKey} {target source : VaultStore} {before : ApplyState}
  {record : SyncRecord Bytes}

theorem applyRecord_of_stale (now : Stamp) (speaks : Speaks codec secret source record)
    (upToDate : ¬ target.Outdated source record.key) :
    applyRecord codec secret target.localStamps now before record = before := by
  have held : ¬ passes target.localStamps record :=
    fun fresh => upToDate ((passes_iff_outdated speaks).mp fresh)
  cases turnOutcome_applyRecord codec secret target.localStamps now before record with
  | stale _ same => exact same
  | deleted fresh => exact absurd fresh held
  | deleteRefused fresh => exact absurd fresh held
  | unreadable fresh => exact absurd fresh held
  | payload fresh => exact absurd fresh held

theorem warnings_of_carried (now : Stamp) (carried : Carried codec secret before record) :
    (applyRecord codec secret target.localStamps now before record).warnings =
      before.warnings := by
  unfold Carried at carried
  cases turnOutcome_applyRecord codec secret target.localStamps now before record with
  | stale _ same => rw [same]
  | deleted _ _ _ warnings => exact warnings
  | deleteRefused _ isDeleted isGroup inUse =>
    rw [if_pos isDeleted] at carried
    exact absurd ⟨isGroup, inUse⟩ carried
  | unreadable _ isLive closed =>
    rw [if_neg (by rw [isLive]; exact Bool.false_ne_true), closed] at carried
    obtain ⟨_, opened, _⟩ := carried
    cases opened
  | payload _ isLive payload opened outcome =>
    rw [if_neg (by rw [isLive]; exact Bool.false_ne_true)] at carried
    obtain ⟨_, isPayload, free⟩ := carried
    rw [opened] at isPayload
    cases isPayload
    cases outcome with
    | saved _ _ warnings => exact warnings
    | keyChangeRefused pin isPin replaces =>
      subst isPin
      exact absurd (free.symm.trans replaces) Bool.false_ne_true
    | saveRefused _ _ _ _ _ isHost misses =>
      subst isHost
      exact absurd (free.symm.trans misses) Bool.false_ne_true

/-- The pin a record pushes another one out with is the source's. -/
theorem rowOf_of_opened_pin (speaks : Speaks codec secret source record)
    (isLive : record.isDeleted = false) {pin : KnownHost}
    (opened : codec.openPayload secret record = some (.knownHost pin)) :
    source.rowOf record.key = some (.knownHost pin) := by
  cases stored : source.rowOf record.key with
  | none =>
    rw [speaks.deleted.mpr stored] at isLive
    cases isLive
  | some row =>
    rw [speaks.opened row stored] at opened
    cases row with
    | knownHost other =>
      cases opened
      rfl
    | _ => cases opened

/-- A row that stands and is stored is kept by the turn of another record, or taken along by it. -/
theorem present_bystander (now : Stamp) (speaks : Speaks codec secret source record)
    (isGone : ∀ key, target.Outdated source key → source.rowOf key = none → key ∈ gone)
    (outdated : target.Outdated source record.key) {key : EntityKey} {row own : Row}
    (different : key ≠ record.key) (stored : before.vault.rowOf key = some own)
    (isVersion : row.IsVersion gone false own) :
    (∃ next, (applyRecord codec secret target.localStamps now before record).vault.rowOf key =
        some next ∧ row.IsVersion gone false next) ∨
      ((applyRecord codec secret target.localStamps now before record).vault.rowOf key = none ∧
        source.TakesAlong record.key row) := by
  cases bystanderOutcome now before speaks.consistent different with
  | untouched rowOf _ => exact .inl ⟨own, rowOf.trans stored, isVersion⟩
  | detached _ isDeleted other isOther rowOf _ =>
    rw [stored] at isOther
    cases isOther
    have member := isGone record.key outdated (speaks.deleted.mp isDeleted)
    refine .inl ⟨_, rowOf, (Row.shared_forget_detach member false own).trans isVersion.1, ?_⟩
    rw [Row.updatedAt_detach]
    exact isVersion.2
  | orphaned _ isDeleted other isOther orphan rowOf _ =>
    rw [stored] at isOther
    cases isOther
    refine .inr ⟨rowOf, ?_⟩
    rw [VaultStore.TakesAlong, speaks.deleted.mp isDeleted]
    exact (Row.orphanedBy_of_agrees isVersion.1 record.key).symm.trans orphan
  | displaced _ isLive pin opened _ other isOther collides rowOf _ =>
    rw [stored] at isOther
    cases isOther
    refine .inr ⟨rowOf, ?_⟩
    have sent := rowOf_of_opened_pin speaks isLive opened
    have ownKey : own.key ≠ (Row.knownHost pin).key := by
      rw [VaultStore.key_of_rowOf stored, VaultStore.key_of_rowOf sent]
      exact different
    have sameEndpoint := VaultStore.endpoint_of_displaces collides ownKey
    rw [VaultStore.TakesAlong, sent]
    have rowEndpoint := (Row.endpoint_of_agrees isVersion.1).symm.trans sameEndpoint.symm
    exact ⟨by rw [rowEndpoint]; exact Option.some_ne_none _, rowEndpoint⟩

/-- A turn that does no harm keeps track and logs nothing. -/
theorem tracks_step (now : Stamp) (tracks : Tracks gone target source earlier before.vault)
    (isGone : ∀ key, target.Outdated source key → source.rowOf key = none → key ∈ gone)
    (enforced : target.foreignKeys = true) (speaks : Speaks codec secret source record)
    (absent : record.key ∉ earlier)
    (harmless : target.Outdated source record.key →
      target.Harmless source earlier record.key) :
    Tracks gone target source (earlier ++ [record.key])
        (applyRecord codec secret target.localStamps now before record).vault ∧
      (applyRecord codec secret target.localStamps now before record).warnings =
        before.warnings := by
  by_cases outdated : target.Outdated source record.key
  · obtain ⟨accepted, spares⟩ := harmless outdated
    have carried := (carried_iff_accepted tracks enforced speaks absent).mpr accepted
    have fresh := (passes_iff_outdated speaks).mpr outdated
    have isNewer : target.newer source record.key = source.rowOf record.key := if_pos outdated
    refine ⟨⟨fun key none => ?_, fun key row stands => ?_, fun key none settled known => ?_, ?_⟩,
      warnings_of_carried now carried⟩
    · by_cases same : key = record.key
      · subst same
        rw [VaultStore.standing_append_self, isNewer] at none
        have effect := deletes_of_carried now fresh (speaks.deleted.mpr none) carried
        exact (effect.rowOf _).trans (if_pos rfl)
      · rw [VaultStore.standing_append same] at none
        exact (holdsNone_bystander now speaks.consistent same ⟨tracks.absent key none, rfl⟩).noRow
    · by_cases same : key = record.key
      · subst same
        rw [VaultStore.standing_append_self, isNewer] at stands
        have isLive : record.isDeleted = false := by
          rw [← Bool.not_eq_true, speaks.deleted, stands]
          exact Option.some_ne_none row
        have effect := saves_of_carried now fresh isLive carried (speaks.opened row stands)
        have rowKey : (before.vault.received
            (before.lastUsed (row.toPayload source.syncPasswords))
            (row.toPayload source.syncPasswords)).key = record.key :=
          (VaultStore.key_received ..).trans
            ((row.key_toPayload _).trans (VaultStore.key_of_rowOf stands))
        refine .inl ⟨_, rowKey ▸ effect.rowOf_self, ?_⟩
        exact Row.isVersion_received (fun never => by cases never) (row.isVersion_refl gone false)
          _ _
      · rw [VaultStore.standing_append same] at stands
        have later : ∀ other ∈ earlier, other ∈ earlier ++ [record.key] :=
          fun other member => mem_append_left _ member
        cases tracks.present key row stands with
        | inl present =>
          obtain ⟨own, stored, isVersion⟩ := present
          cases present_bystander now speaks isGone outdated same stored isVersion with
          | inl kept => exact .inl kept
          | inr taken =>
            obtain ⟨noRow, takes⟩ := taken
            refine .inr ⟨noRow, (VaultStore.awaited_append same).mpr ?_, record.key, ?_, outdated,
              takes⟩
            · exact spares key row same stands takes
            · exact mem_append_right _ (mem_singleton_self _)
        | inr taken =>
          obtain ⟨noRow, awaited, other, member, newer, takes⟩ := taken
          refine .inr ⟨?_, (VaultStore.awaited_append same).mpr awaited, other,
            later other member, newer, takes⟩
          exact (holdsNone_bystander now speaks.consistent same ⟨noRow, rfl⟩).noRow
    · by_cases same : key = record.key
      · subst same
        rw [VaultStore.standing_append_self, isNewer] at none
        have effect := deletes_of_carried now fresh (speaks.deleted.mpr none) carried
        rw [effect.deletedAt, if_pos (.inl rfl)]
        exact Option.some_ne_none now
      · rw [VaultStore.standing_append same] at none
        rw [(holdsNone_bystander now speaks.consistent same
          ⟨tracks.absent key none, rfl⟩).deletedAt]
        exact tracks.tombstoned key none (mt (VaultStore.awaited_append same).mpr settled) known
    · have kept := surroundings_applyRecord codec secret target.localStamps now before record
      exact (congrArg (fun rest => rest.2.2) kept).trans tracks.foreignKeys
  · rw [applyRecord_of_stale now speaks outdated]
    have same : target.standing source (earlier ++ [record.key]) = target.standing source earlier :=
      VaultStore.standing_eq_of_stale outdated
    have settled : ∀ key, target.Awaited source (earlier ++ [record.key]) key ↔
        target.Awaited source earlier key := by
      intro key
      by_cases here : key = record.key
      · subst here
        exact ⟨fun awaited => absurd awaited.2 outdated, fun awaited => absurd awaited.2 outdated⟩
      · exact VaultStore.awaited_append here
    refine ⟨⟨fun key none => ?_, fun key row stands => ?_, fun key none notAwaited known => ?_,
      tracks.foreignKeys⟩, rfl⟩
    · rw [same] at none
      exact tracks.absent key none
    · rw [same] at stands
      cases tracks.present key row stands with
      | inl present => exact .inl present
      | inr taken =>
        obtain ⟨noRow, awaited, other, member, takes⟩ := taken
        exact .inr ⟨noRow, (settled key).mpr awaited, other, mem_append_left _ member, takes⟩
    · rw [same] at none
      exact tracks.tombstoned key none (mt (settled key).mpr notAwaited) known

/-- A row that is taken along is not stored any more. -/
theorem rowOf_of_takesAlong (now : Stamp) (tracks : Tracks gone target source earlier before.vault)
    (speaks : Speaks codec secret source record) (carried : Carried codec secret before record)
    (outdated : target.Outdated source record.key) {key : EntityKey} {row : Row}
    (different : key ≠ record.key) (stands : target.standing source earlier key = some row)
    (settled : ¬ target.Awaited source earlier key) (takes : source.TakesAlong record.key row) :
    (applyRecord codec secret target.localStamps now before record).vault.rowOf key = none := by
  have fresh := (passes_iff_outdated speaks).mpr outdated
  obtain ⟨own, stored, isVersion⟩ := (tracks.present key row stands).resolve_right
    fun taken => settled taken.2.1
  unfold VaultStore.TakesAlong at takes
  cases sent : source.rowOf record.key with
  | none =>
    rw [sent] at takes
    have effect := deletes_of_carried now fresh (speaks.deleted.mpr sent) carried
    have orphan := (Row.orphanedBy_of_agrees isVersion.1 record.key).trans takes
    rw [effect.rowOf, if_neg different, stored, Option.filter_some, orphan]
    rfl
  | some sentRow =>
    rw [sent] at takes
    obtain ⟨isPin, sameEndpoint⟩ := takes
    have isLive : record.isDeleted = false := by
      rw [← Bool.not_eq_true, speaks.deleted, sent]
      exact Option.some_ne_none sentRow
    have effect := saves_of_carried now fresh isLive carried (speaks.opened sentRow sent)
    have receivedKey := (VaultStore.key_received before.vault
      (before.lastUsed (sentRow.toPayload source.syncPasswords)) (sentRow.toPayload _)).trans
        ((sentRow.key_toPayload source.syncPasswords).trans (VaultStore.key_of_rowOf sent))
    have ownEndpoint := (Row.endpoint_of_agrees isVersion.1).trans sameEndpoint
    rw [effect.rowOf, if_neg (receivedKey ▸ different), stored, Option.filter_some]
    cases sentRow with
    | knownHost pin =>
      have collides : Table.displaces Row.key Row.endpoint (.knownHost pin) own = true := by
        unfold Table.displaces
        rw [ownEndpoint, decide_eq_true rfl]
        exact Bool.or_true _
      rw [Row.toPayload, VaultStore.received, collides]
      rfl
    | _ =>
      rw [sameEndpoint] at isPin
      exact absurd rfl isPin

end Turn

/-! ### All turns -/

theorem forall_splits_cons {α : Type} {first : α} {rest : List α} {holds : List α → α → Prop} :
    (∀ earlier key later, first :: rest = earlier ++ key :: later → holds earlier key) ↔
      holds [] first ∧
        ∀ earlier key later, rest = earlier ++ key :: later → holds (first :: earlier) key := by
  constructor
  · intro all
    refine ⟨all [] first rest rfl, fun earlier key later split => ?_⟩
    exact all (first :: earlier) key later (by rw [split, cons_append])
  · rintro ⟨here, others⟩ earlier key later split
    cases earlier with
    | nil =>
      cases split
      exact here
    | cons head earlier =>
      rw [cons_append] at split
      obtain ⟨rfl, rest⟩ := cons.inj split
      exact others earlier key later rest

section Loop

variable {Bytes : Type} {codec : Codec Bytes} {secret : SharedSecret}
  {gone earlier : List EntityKey} {target source : VaultStore} {state : ApplyState}

/-- What has no row, and no record to come, gets none. -/
theorem rowOf_applyLoop_of_none {now : Nat → Stamp} {turn : Nat} {key : EntityKey}
    {records : List (SyncRecord Bytes)} (speak : ∀ record ∈ records, Speaks codec secret source record)
    (notComing : ∀ record ∈ records, record.key = key → ¬ target.Outdated source record.key)
    (noRow : state.vault.rowOf key = none) :
    (applyLoop codec secret target.localStamps now turn state records).vault.rowOf key = none := by
  refine applyLoop_invariant codec secret target.localStamps now
    (fun state => state.vault.rowOf key = none) turn state records ?_ noRow
  intro before record meets noRow reading
  have member := record_mem_of_mem_meetings meets
  by_cases same : key = record.key
  · rw [applyRecord_of_stale _ (speak record member) (notComing record member same.symm)]
    exact noRow
  · exact (holdsNone_bystander _ (speak record member).consistent same ⟨noRow, rfl⟩).noRow

/-- A warning, or a row that is gone although it is the newer version. -/
def Loses (target source : VaultStore) (state : ApplyState) : Prop :=
  state.warnings ≠ [] ∨ ∃ key row, target.newer source key = some row ∧ key.1 ≠ .group ∧
    state.vault.rowOf key = none

theorem loses_of_harm {now : Nat → Stamp} {turn : Nat} {record : SyncRecord Bytes}
    {records : List (SyncRecord Bytes)}
    (tracks : Tracks gone target source earlier state.vault) (enforced : target.foreignKeys = true)
    (speak : ∀ other ∈ record :: records, Speaks codec secret source other)
    (nodup : (earlier ++ (record :: records).map SyncRecord.key).Nodup)
    (outdated : target.Outdated source record.key)
    (harm : ¬ target.Harmless source earlier record.key) :
    Loses target source
      (applyLoop codec secret target.localStamps now turn state (record :: records)) := by
  have speaks := speak record (mem_cons_self ..)
  have absent : record.key ∉ earlier := fun member =>
    (nodup_append'.mp nodup).2.2 member (mem_cons_self ..)
  by_cases accepted : target.Accepted source earlier record.key
  · have carried := (carried_iff_accepted tracks enforced speaks absent).mpr accepted
    have spared : ¬ ∀ other row, other ≠ record.key →
        target.standing source earlier other = some row → source.TakesAlong record.key row →
          target.Awaited source earlier other := fun spares => harm ⟨accepted, spares⟩
    push Not at spared
    obtain ⟨key, row, different, stands, takes, settled⟩ := spared
    refine .inr ⟨key, row, (VaultStore.standing_of_not_awaited settled).symm.trans stands, ?_, ?_⟩
    · have rowKey : row.key = key := by
        unfold VaultStore.standing at stands
        split at stands
        · exact VaultStore.key_of_rowOf stands
        · exact VaultStore.key_of_rowOf stands
      rw [← rowKey]
      cases takesAlong_type takes with
      | inl isRule => exact fun isGroup => by cases isRule.symm.trans isGroup
      | inr isPin => exact fun isGroup => by cases isPin.symm.trans isGroup
    · have noRow := rowOf_of_takesAlong (now turn) tracks speaks carried outdated different stands
        settled takes
      show (applyLoop codec secret target.localStamps now (turn + 1) _ records).vault.rowOf key = none
      refine rowOf_applyLoop_of_none (fun other member => speak other (mem_cons_of_mem _ member))
        ?_ noRow
      rintro other member rfl newer
      refine settled ⟨fun came => ?_, newer⟩
      exact (nodup_append'.mp nodup).2.2 came
        (mem_map_of_mem (mem_cons_of_mem _ member))
  · refine .inl fun quiet => accepted ?_
    have fresh := (passes_iff_outdated speaks).mpr outdated
    have quietTurn : (applyRecord codec secret target.localStamps (now turn) state
        record).warnings = [] := by
      refine eq_nil_iff_forall_not_mem.mpr fun warning logged => ?_
      have stays : warning ∈ (applyLoop codec secret target.localStamps now turn state
          (record :: records)).warnings :=
        applyLoop_invariant codec secret target.localStamps now
          (fun state => warning ∈ state.warnings) _ _ records
          (fun before other _ logged index => mem_warnings_applyRecord _ before other logged) logged
      rw [quiet] at stays
      cases stays
    exact (carried_iff_accepted tracks enforced speaks absent).mp
      (carried_of_warnings (now turn) fresh quietTurn)

/-- Either no turn does harm, and the vault is tracked through all of them, or one does, and
something is lost. -/
theorem applyLoop_tracks_or_loses {now : Nat → Stamp} {turn : Nat}
    {records : List (SyncRecord Bytes)}
    (tracks : Tracks gone target source earlier state.vault) (quiet : state.warnings = [])
    (isGone : ∀ key, target.Outdated source key → source.rowOf key = none → key ∈ gone)
    (enforced : target.foreignKeys = true)
    (speak : ∀ record ∈ records, Speaks codec secret source record)
    (nodup : (earlier ++ records.map SyncRecord.key).Nodup) :
    ((∀ before key later, records.map SyncRecord.key = before ++ key :: later →
          target.Outdated source key → target.Harmless source (earlier ++ before) key) ∧
        (applyLoop codec secret target.localStamps now turn state records).warnings = [] ∧
        Tracks gone target source (earlier ++ records.map SyncRecord.key)
          (applyLoop codec secret target.localStamps now turn state records).vault) ∨
      (¬ (∀ before key later, records.map SyncRecord.key = before ++ key :: later →
          target.Outdated source key → target.Harmless source (earlier ++ before) key) ∧
        Loses target source
          (applyLoop codec secret target.localStamps now turn state records)) := by
  induction records generalizing turn state earlier with
  | nil =>
    refine .inl ⟨fun before key later split => ?_, quiet, ?_⟩
    · exact absurd split.symm (append_ne_nil_of_right_ne_nil before (cons_ne_nil key later))
    · rw [map_nil, append_nil]
      exact tracks
  | cons record records inductionHypothesis =>
    rw [map_cons, forall_splits_cons, append_nil]
    by_cases harmless : target.Outdated source record.key →
        target.Harmless source earlier record.key
    · have absent : record.key ∉ earlier := fun member =>
        (nodup_append'.mp nodup).2.2 member (mem_cons_self ..)
      obtain ⟨tracksNext, sameWarnings⟩ := tracks_step (now turn) tracks isGone enforced
        (speak record (mem_cons_self ..)) absent harmless
      have shifted : ∀ others : List EntityKey,
          earlier ++ record.key :: others = earlier ++ [record.key] ++ others := fun others => by
        rw [append_assoc, singleton_append]
      rw [map_cons, shifted] at nodup
      have rest := @inductionHypothesis _ _ (turn + 1) tracksNext (sameWarnings.trans quiet)
        (fun other member => speak other (mem_cons_of_mem _ member)) nodup
      have sameSplits : (∀ before key later, records.map SyncRecord.key = before ++ key :: later →
          target.Outdated source key →
            target.Harmless source (earlier ++ record.key :: before) key) ↔
          ∀ before key later, records.map SyncRecord.key = before ++ key :: later →
            target.Outdated source key →
              target.Harmless source (earlier ++ [record.key] ++ before) key := by
        refine forall_congr' fun before => ?_
        rw [shifted before]
      rw [sameSplits, shifted (records.map SyncRecord.key)]
      cases rest with
      | inl kept => exact .inl ⟨⟨harmless, kept.1⟩, kept.2⟩
      | inr lost => exact .inr ⟨fun all => lost.1 all.2, lost.2⟩
    · refine .inr ⟨fun all => harmless all.1, ?_⟩
      rw [Classical.not_imp] at harmless
      exact loses_of_harm tracks enforced speak nodup harmless.1 harmless.2

theorem appliedState_tracks_or_loses {now : Nat → Stamp} {records : List (SyncRecord Bytes)}
    (isGone : ∀ key, target.Outdated source key → source.rowOf key = none → key ∈ gone)
    (enforced : target.foreignKeys = true)
    (speak : ∀ record ∈ records, Speaks codec secret source record)
    (nodup : (records.map SyncRecord.key).Nodup) :
    (target.Absorbs source records ∧ (appliedState codec secret now target records).warnings = [] ∧
        Tracks gone target source (records.map SyncRecord.key)
          (appliedState codec secret now target records).vault) ∨
      (¬ target.Absorbs source records ∧
        Loses target source (appliedState codec secret now target records)) := by
  have tracks : Tracks gone target source [] (⟨target, none, []⟩ : ApplyState).vault :=
    tracks_nil gone target source
  exact applyLoop_tracks_or_loses tracks rfl isGone enforced speak nodup

end Loop

/-! ### The merged vault and its snapshot -/

namespace VaultStore

theorem mem_keys_buildManifest (vault : VaultStore) (key : EntityKey) :
    key ∈ vault.buildManifest.map ManifestEntry.key ↔ vault.Knows key := by
  rw [mem_map, knows_iff_localStamps, ← updatedAt_manifestEntry]
  constructor
  · rintro ⟨entry, member, rfl⟩
    exact ⟨entry.updatedAt, by rw [(vault.mem_buildManifest entry).mp member]; rfl⟩
  · rintro ⟨stamp, announced⟩
    obtain ⟨entry, found, _⟩ := Option.map_eq_some_iff.mp announced
    have sameKey := key_of_manifestEntry found
    exact ⟨entry, (vault.mem_buildManifest entry).mpr (sameKey.symm ▸ found), sameKey⟩

/-- The repair leaves a row and its stamp, and of a group all but the parent. -/
theorem rowOf_breakGroupCycles (vault : VaultStore) {key : EntityKey} {own : Row}
    (stored : vault.rowOf key = some own) :
    ∃ next, vault.breakGroupCycles.rowOf key = some next ∧ next.updatedAt = own.updatedAt ∧
      own.withoutParent.shared false = next.withoutParent.shared false := by
  rw [breakGroupCycles, rowOf_foldl_detachGroup _ _ _ _ exists_withId_of_breaker]
  split
  · rename_i detached
    have sameKey := key_of_rowOf stored
    cases own with
    | group entity =>
      have found : Group.withId vault.listGroups key.2 = some entity := by
        rw [withId_listGroups, groupOf_eq_some_iff, ← stored]
        exact congrArg vault.rowOf (Prod.ext detached.1.symm rfl)
      rw [found]
      refine ⟨_, rfl, rfl, ?_⟩
      simp only [Row.withoutParent, Row.shared, Row.stored, Row.toPayload, Group.stored,
        Option.filter_filter, Bool.and_self]
    | _ => cases (congrArg Prod.fst sameKey).trans detached.1
  · exact ⟨own, stored, rfl, rfl⟩

end VaultStore

section Merge

variable {Bytes : Type} {codec : Codec Bytes} {secret : SharedSecret}
  {target source after : VaultStore} {records snapshot next : List (SyncRecord Bytes)}
  {warnings : List SyncWarning} {count : Nat} {now : Nat → Stamp} {builtAt pushedAt : Stamp}

theorem mergeSnapshot_eq_ok
    (merged : mergeSnapshot codec target snapshot secret now = .ok (after, warnings, count)) :
    applyRecords codec target snapshot (some secret) now = .ok (after, warnings) ∧
      warnings = (appliedState codec secret now target snapshot).warnings ∧
      (after = (appliedState codec secret now target snapshot).vault ∨
        after = (appliedState codec secret now target snapshot).vault.breakGroupCycles) := by
  simp only [mergeSnapshot, applyRecords, bind, Except.bind, pure, Except.pure, Except.ok.injEq,
    Prod.mk.injEq] at merged
  obtain ⟨isAfter, isWarnings, _⟩ := merged
  refine ⟨?_, isWarnings.symm, ?_⟩
  · simp only [applyRecords, isAfter, isWarnings]
  · rw [← isAfter]
    split
    · exact .inr rfl
    · exact .inl rfl

/-- The records of a snapshot speak for the vault it was built of, in any order. -/
theorem speaks_of_snapshot (exclusive : source.Exclusive)
    (built : source.buildFullSnapshot codec secret builtAt = .ok records)
    (order : snapshot.Perm records) :
    (∀ record ∈ snapshot, Speaks codec secret source record) ∧
      (snapshot.map SyncRecord.key).Nodup ∧
      ∀ key, source.Knows key → key ∈ snapshot.map SyncRecord.key := by
  refine ⟨fun record member => ?_, ?_, fun key knows => ?_⟩
  · have collected := ((mem_of_collected built record).mp (order.subset member)).2
    exact (speaks_of_collectRecord exclusive collected).2
  · exact (order.map SyncRecord.key).nodup_iff.mpr
      (nodup_of_collected built source.nodup_keys_buildManifest)
  · have listed := (source.mem_keys_buildManifest key).mpr knows
    have exists_record : ∃ record, source.collectRecord codec secret builtAt key = some record := by
      cases tombstoned : source.deletedAt key with
      | some stamp =>
        exact ⟨_, VaultStore.collectRecord_of_deletedAt codec secret builtAt tombstoned⟩
      | none =>
        obtain ⟨row, stored⟩ := Option.ne_none_iff_exists'.mp
          (knows.resolve_right fun deleted => deleted tombstoned)
        obtain ⟨record, collected, _⟩ :=
          VaultStore.collectRecord_of_rowOf codec secret builtAt tombstoned stored
        exact ⟨record, collected⟩
    obtain ⟨record, collected⟩ := exists_record
    have sameKey := VaultStore.key_of_collectRecord collected
    subst sameKey
    exact mem_map_of_mem
      (order.symm.subset ((mem_of_collected built record).mpr ⟨listed, collected⟩))

/-- The next snapshot carries what the merged vault is tracked to have. -/
theorem carries_of_tracks {gone : List EntityKey} {key : EntityKey}
    (tracks : Tracks gone target source (snapshot.map SyncRecord.key)
      (appliedState codec secret now target snapshot).vault)
    (complete : ∀ key, source.Knows key → key ∈ snapshot.map SyncRecord.key)
    (exclusive : after.Exclusive)
    (isAfter : after = (appliedState codec secret now target snapshot).vault ∨
      after = (appliedState codec secret now target snapshot).vault.breakGroupCycles)
    (pushed : after.buildFullSnapshot codec secret pushedAt = .ok next)
    (known : target.Knows key ∨ source.Knows key) :
    ∃ record ∈ next, record.key = key ∧
      record.Carries codec secret gone (target.newer source key) := by
  have settled : ¬ target.Awaited source (snapshot.map SyncRecord.key) key :=
    fun awaited => awaited.1 (complete key (knows_of_outdated awaited.2))
  rw [← VaultStore.standing_of_not_awaited settled]
  obtain ⟨speak, _, listed⟩ := speaks_of_snapshot exclusive pushed (List.Perm.refl next)
  cases stands : target.standing source (snapshot.map SyncRecord.key) key with
  | none =>
    have noRow := tracks.absent key stands
    have deleted := tracks.tombstoned key stands settled known
    have gone : after.rowOf key = none ∧ after.deletedAt key ≠ none := by
      cases isAfter with
      | inl same =>
        rw [same]
        exact ⟨noRow, deleted⟩
      | inr repaired =>
        rw [repaired, VaultStore.deletedAt_breakGroupCycles _ noRow]
        exact ⟨VaultStore.rowOf_breakGroupCycles_of_none _ noRow, deleted⟩
    obtain ⟨record, member, sameKey⟩ := mem_map.mp (listed key (.inr gone.2))
    exact ⟨record, member, sameKey,
      (speak record member).deleted.mpr (by rw [sameKey]; exact gone.1)⟩
  | some row =>
    obtain ⟨own, stored, agrees, stamp⟩ := (tracks.present key row stands).resolve_right
      fun taken => settled taken.2.1
    have kept : ∃ own, after.rowOf key = some own ∧ own.updatedAt = row.updatedAt ∧
        row.withoutParent.AgreesUpTo gone false own.withoutParent := by
      have withoutParent := (Row.agreesUpTo_withoutParent agrees).symm
      cases isAfter with
      | inl same =>
        rw [same]
        exact ⟨own, stored, stamp, withoutParent⟩
      | inr repaired =>
        obtain ⟨final, found, sameStamp, shared⟩ := VaultStore.rowOf_breakGroupCycles _ stored
        rw [repaired]
        exact ⟨final, found, sameStamp.trans stamp,
          withoutParent.trans (congrArg (SyncPayload.forget gone) shared)⟩
    obtain ⟨final, found, sameStamp, agreesFinal⟩ := kept
    have knows : after.Knows key := .inl (by rw [found]; exact Option.some_ne_none final)
    obtain ⟨record, member, sameKey⟩ := mem_map.mp (listed key knows)
    subst sameKey
    have speaks := speak record member
    refine ⟨record, member, rfl, ?_, ?_, final, after.syncPasswords, speaks.opened final found,
      agreesFinal⟩
    · rw [← Bool.not_eq_true, speaks.deleted, found]
      exact Option.some_ne_none final
    · have held := speaks.stamp
      rw [VaultStore.localStamps, found] at held
      rw [← sameStamp]
      exact (Option.some.inj held).symm

end Merge

/-! ### A host that comes before its group -/

/-- A host in a group. -/
def groupedHost : VaultStore :=
  ((VaultStore.empty false true).saveGroup ⟨1, "group", none, none, 10, ""⟩).replaceRow
    (.connection ⟨2, "host", "host", 22, some 1, none, none, none, [], none, none, none, 20, ""⟩
      .unset)

theorem exclusive_groupedHost : groupedHost.Exclusive := fun _ => .inr rfl

end Oryxis

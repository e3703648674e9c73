/-
This file is about an import that is stopped.

An import checks that the vault is unlocked and that the file opens before it reads
or writes anything, so that it will not leave a part of the file behind. What it does
then is one statement after the other, and an engine that refuses one of them, for a
full disk or a lock another process holds, stops it where it is.

So whether a stopped import leaves the tables as they were depends on what there is
to write. It does, whatever is refused, if the vault is locked or the file does not
open; otherwise only if there is nothing in the file that the store would take, but
for at most one theme, which is the last thing that is written.
-/

import Oryxis.Portable.Import

namespace Oryxis.Portable

open Library Library.Parents List

variable {Key Nonce Sealed : Type} {keyring : Keyring Key Nonce Sealed}

/-- The value a setting of the file would have in the store. -/
def writtenValue (keyring : Keyring Key Nonce Sealed) (setting : Setting) : String :=
  if setting.key = Store.aiApiKey then Store.sealedApiKey keyring setting.value else setting.value

/-- The store would take nothing of the file but themes, and has no tree to repair. -/
structure BringsNothing (keyring : Keyring Key Nonce Sealed) (store : Store Sealed)
    (payload : ExportPayload) : Prop where
  groups : ∀ group ∈ payload.groups, (store.rowOf (.group, group.id)).isSome
  acyclic : payload.groups ≠ [] → ∀ id, ¬ OnCycle store.parentOf id
  keys : ∀ entry ∈ payload.keys, (store.rowOf (.sshKey, entry.key.id)).isSome
  identities : ∀ entry ∈ payload.identities, store.HasCurrent (.identity entry.identity)
  proxyIdentities : ∀ entry ∈ payload.proxyIdentities,
    store.HasCurrent (.proxyIdentity entry.proxyIdentity)
  cloudProfiles : ∀ entry ∈ payload.cloudProfiles, store.HasCurrent (.cloudProfile entry.profile)
  connections : ∀ entry ∈ payload.connections, store.HasCurrent (.connection entry.connection)
  loginScripts : ∀ script ∈ payload.loginScripts, (store.rowOf (.loginScript, script.id)).isSome
  snippets : ∀ snippet ∈ payload.snippets, (store.rowOf (.snippet, snippet.id)).isSome
  portForwardRules : ∀ rule ∈ payload.portForwardRules,
    (store.rowOf (.portForwardRule, rule.id)).isSome
  knownHosts : ∀ pin ∈ payload.knownHosts, store.HasPin pin
  sessionGroups : ∀ sessionGroup ∈ payload.sessionGroups,
    (store.rowOf (.sessionGroup, sessionGroup.id)).isSome
  settings : ∀ setting ∈ payload.portableSettings,
    store.valueOf setting.key = some (writtenValue keyring setting)

/-- The themes the store would take. -/
def newThemes (store : Store Sealed) (payload : ExportPayload) : List CustomTerminalTheme :=
  accepted (fun theme => skipIfExists (themeTaken store.customTerminalThemes.rows theme))
    payload.customTerminalThemes

/-- The hosts of a file name groups that it has or that the store has. -/
def GroupsResolve (store : Store Sealed) (payload : ExportPayload) : Prop :=
  ∀ entry ∈ payload.connections, ∀ id, entry.connection.groupId = some id →
    (∃ group ∈ payload.groups, group.id = id) ∨ (store.rowOf (.group, id)).isSome

/-! ### Saves are noticed -/

section Saves

variable {store : Store Sealed}

abbrev Untouched (store other : Store Sealed) : Prop := other.SameTables store

variable {other : Store Sealed} {entity : Entity}

theorem not_untouched_of_entityOf {key : EntityKey} (stored : other.entityOf key = some entity)
    (fresh : store.entityOf key ≠ some entity) :
    ¬ Untouched store other := fun same =>
  fresh ((congrArg (Option.map Row.entity) (same.rowOf key)).symm.trans stored)

/-- A save stops after it has stored the row, wherever it starts. -/
theorem exists_stop_save (own : Option Sealed → Option Sealed)
    (grouped : other.missesGroup entity = false)
    (fresh : store.entityOf entity.key ≠ some entity.stored) :
    ∃ stop ∈ (Store.save entity own).stops other, ¬ Untouched store stop := by
  rw [Store.stops_save own grouped]
  refine ⟨_, mem_cons_of_mem _ (mem_cons_self ..), not_untouched_of_entityOf ?_ fresh⟩
  have inserted := Table.get?_insertOrReplace_self other.rows (other.savedRow entity own)
  rw [Store.key_savedRow] at inserted
  exact congrArg (Option.map Row.entity) inserted

theorem loud_save (own : Option Sealed → Option Sealed)
    (grouped : ∀ other, Untouched store other → other.missesGroup entity = false)
    (fresh : store.entityOf entity.key ≠ some entity.stored) :
    Script.Quiet (Untouched store) (Store.save entity own) False where
  kept impossible := impossible.elim
  touched _ other same := exists_stop_save own (grouped other same) fresh

theorem fresh_of_absent (absent : ¬ (store.rowOf entity.key).isSome) :
    store.entityOf entity.key ≠ some entity.stored := fun same => by
  rw [← store.isSome_entityOf, same] at absent
  exact absent rfl

theorem fresh_of_not_hasCurrent (notCurrent : ¬ store.HasCurrent entity) :
    store.entityOf entity.key ≠ some entity.stored := fun same =>
  notCurrent ⟨_, same, by rw [Entity.updatedAt_stored]; exact lt_irrefl _⟩

theorem quiet_merge {Item : Type} {verdict : Item → Verdict}
    {saveItem : Item → Script (Store Sealed) VaultError PUnit} {items : List Item}
    (loud : ∀ item ∈ items, verdict item ≠ .skipped →
      Script.Quiet (Untouched store) (saveItem item) False) :
    Script.Quiet (Untouched store) (merge verdict saveItem items)
      (∀ item ∈ items, verdict item = .skipped) := by
  have loop : Script.Quiet (Untouched store) ((accepted verdict items).forM saveItem)
      (∀ item ∈ accepted verdict items, False) :=
    Script.Quiet.forM fun item member =>
      loud item (mem_accepted.mp member).1 (mem_accepted.mp member).2
  refine (loop.bind fun _ _ => Script.Quiet.pure _).congr ?_
  rw [and_true]
  refine forall_congr' fun item => ?_
  rw [mem_accepted, and_imp, ne_eq, imp_false, not_not]

/-- The kinds a store only adds to. -/
theorem loud_saveEntity (notHost : entity.entityType ≠ .connection)
    (absent : ¬ (store.rowOf entity.key).isSome) :
    Script.Quiet (Untouched store) (Store.saveEntity entity) False :=
  loud_save _ (fun other _ => other.missesGroup_of_ne notHost) (fresh_of_absent absent)

theorem loud_saveWithSecret {argument : Option String} (notHost : entity.entityType ≠ .connection)
    (fresh : store.entityOf entity.key ≠ some entity.stored) :
    Script.Quiet (Untouched store) (Store.saveWithSecret keyring entity argument) False :=
  loud_save _ (fun other _ => other.missesGroup_of_ne notHost) fresh

theorem loud_importConnection {entry : ExportConnection}
    (grouped : ∀ id, entry.connection.groupId = some id → (store.rowOf (.group, id)).isSome)
    (notCurrent : ¬ store.HasCurrent (.connection entry.connection)) :
    Script.Quiet (Untouched store) (importConnection keyring entry) False := by
  have saved : Script.Quiet (Untouched store)
      (Store.saveConnection keyring entry.connection entry.password) False := by
    refine loud_save _ (fun other same => Store.missesGroup_eq_false fun host isHost id named => ?_)
      (fresh_of_not_hasCurrent notCurrent)
    cases isHost
    rw [same.rowOf]
    exact grouped id named
  have rest : False → ∀ value : PUnit, Script.Quiet (Untouched store)
      (do
        Store.setProxyPassword keyring entry.connection.id entry.proxyPassword
        Store.setConnectionTotpSecret keyring entry.connection.id entry.totpSecret
        Store.setConnectionTargetPassword keyring entry.connection.id entry.targetPassword) False :=
    fun impossible => impossible.elim
  exact (saved.bind rest).congr (and_self_iff)

/-- A pin is taken only where it goes under an id of its own. -/
theorem loud_saveKnownHost {pin : KnownHost} {gone : Uuid → Stamp}
    (notPinned : ¬ store.HasPin pin) :
    Script.Quiet (Untouched store) (Store.saveKnownHost gone pin) False where
  kept impossible := impossible.elim
  touched _ other _ := by
    have absent : ¬ (store.rowOf (.knownHost, pin.id)).isSome := by
      intro there
      rw [← store.isSome_entityOf, Option.isSome_iff_exists] at there
      obtain ⟨entity, stored⟩ := there
      obtain ⟨own, member, rfl⟩ := store.exists_mem_list Kind.knownHosts rfl stored
      exact notPinned ⟨own, member, .inl (congrArg Prod.snd (Store.key_of_entityOf stored))⟩
    obtain ⟨between, done⟩ := Script.exists_carryOut_forM
      (fun id before => ⟨_, rfl⟩ : ∀ id before, ∃ after,
        (Store.deleteKnownHost gone id).carryOut before = (.ok PUnit.unit, after))
      (other.stalePins pin) other
    have grouped : between.missesGroup (.knownHost pin) = false := rfl
    obtain ⟨stop, member, isTouched⟩ := exists_stop_save (fun _ => none) grouped
      (fresh_of_absent absent)
    refine ⟨stop, ?_, isTouched⟩
    rw [Store.saveKnownHost, Script.stops_bind_of_ok _ (Script.carryOut_select _ other),
      Script.stops_bind_of_ok _ done]
    exact mem_append_right _ (mem_append_right _ member)

/-! ### The repair -/

theorem entityOf_of_untouched (same : Untouched store other) (key : EntityKey) :
    other.entityOf key = store.entityOf key :=
  congrArg (Option.map Row.entity) (same.rowOf key)

theorem parentOf_of_untouched (same : Untouched store other) :
    other.parentOf = store.parentOf := by
  funext id
  rw [Store.parentOf, entityOf_of_untouched same, Store.parentOf]

/-- Saving a group without the parent it has is noticed. -/
theorem exists_stop_detachGroup (same : Untouched store other) {id : Uuid}
    (cyclic : OnCycle other.parentOf id) :
    ∃ stop ∈ (detachGroup (other.list Kind.groups) id).stops other, ¬ Untouched store stop := by
  obtain ⟨above, up, _⟩ := Relation.TransGen.head'_iff.mp cyclic
  have found : ((other.list Kind.groups).find? fun group => decide (group.id = id)) =
      (other.entityOf (.group, id)).bind Kind.groups.unwrap :=
    other.find?_list Kind.groups (fun _ => rfl) id
  rw [Up, Store.parentOf, Option.bind_eq_some_iff] at up
  obtain ⟨group, unwrapped, parent⟩ := up
  obtain ⟨entity, stored, isGroup⟩ := Option.bind_eq_some_iff.mp unwrapped
  rw [Kind.groups.unwrap_eq_some.mp isGroup] at stored
  have sameId : group.id = id := congrArg Prod.snd (Store.key_of_entityOf stored)
  rw [detachGroup, found, unwrapped]
  refine exists_stop_save _ rfl fun unchanged => ?_
  have stays : store.entityOf (.group, group.id) = some (.group group) := by
    rw [← entityOf_of_untouched same, sameId]
    exact stored
  have detached := Option.some.inj (stays.symm.trans unchanged)
  have noParent : group.parentId = none :=
    congrArg (fun group : Group => group.parentId) (Entity.group.inj detached)
  rw [noParent] at parent
  cases parent

theorem quiet_breakCycles :
    Script.Quiet (Untouched store) breakCycles (∀ id, ¬ OnCycle store.parentOf id) where
  kept acyclic other same := by
    have none_ : Oryxis.Group.cycleBreakers ((other.list Kind.groups).map Group.toGroup) = [] := by
      refine Oryxis.Group.cycleBreakers_eq_nil ?_
      rw [other.parentIn_list, parentOf_of_untouched same]
      exact acyclic
    have rest : breakCycles.carryOut other = (.ok PUnit.unit, other) ∧
        breakCycles.stops other = [other] := by
      rw [breakCycles, Script.carryOut_bind_of_ok _ (Script.carryOut_select _ other),
        Script.stops_bind_of_ok _ (Script.carryOut_select _ other), none_]
      exact ⟨rfl, rfl⟩
    refine ⟨_, _, rest.1, same, fun stop member => ?_⟩
    rw [rest.2, mem_singleton] at member
    rw [member]
    exact same
  touched notAcyclic other same := by
    rw [not_forall] at notAcyclic
    obtain ⟨id, cyclic⟩ := notAcyclic
    rw [not_not, ← parentOf_of_untouched same, ← other.parentIn_list] at cyclic
    obtain ⟨breaker, member, _⟩ := Oryxis.Group.exists_mem_cycleBreakers cyclic
    obtain ⟨first, others, isList⟩ := exists_cons_of_ne_nil (ne_nil_of_mem member)
    have firstCyclic : OnCycle other.parentOf first := by
      rw [← other.parentIn_list]
      exact Oryxis.Group.onCycle_of_mem_cycleBreakers (isList ▸ mem_cons_self ..)
    obtain ⟨stop, inside, isTouched⟩ := exists_stop_detachGroup same firstCyclic
    refine ⟨stop, ?_, isTouched⟩
    rw [breakCycles, Script.stops_bind_of_ok _ (Script.carryOut_select _ other), isList,
      Script.forM_cons, Script.stops_bind]
    exact mem_append_right _ (mem_append_left _ inside)

theorem quiet_mergeGroups (payload : ExportPayload) :
    Script.Quiet (Untouched store) (mergeGroups store.existing payload)
      ((∀ group ∈ payload.groups, (store.rowOf (.group, group.id)).isSome) ∧
        (payload.groups ≠ [] → ∀ id, ¬ OnCycle store.parentOf id)) := by
  have saved : Script.Quiet (Untouched store)
      (merge store.existing.ofGroup Store.saveGroup payload.groups)
      (∀ group ∈ payload.groups, store.existing.ofGroup group = .skipped) :=
    quiet_merge fun group _ notSkipped => loud_saveEntity nofun (mt (ofGroup_eq_skipped store group).mpr notSkipped)
  have repaired : Script.Quiet (Untouched store)
      (repairMerged payload) (payload.groups ≠ [] → ∀ id, ¬ OnCycle store.parentOf id) := by
    unfold repairMerged
    cases payload.groups with
    | nil => exact (Script.Quiet.pure PUnit.unit).congr (by simp)
    | cons group groups => exact quiet_breakCycles.congr (by simp)
  refine (saved.bind fun _ tally => repaired.bind fun _ _ => Script.Quiet.pure tally).congr ?_
  simp only [ofGroup_eq_skipped, and_true]

/-! ### Settings and themes -/

theorem carryOut_importSetting (setting : Setting) (other : Store Sealed) :
    (importSetting keyring setting).carryOut other =
      (.ok PUnit.unit, other.putSetting ⟨setting.key, writtenValue keyring setting⟩) := by
  unfold importSetting writtenValue
  split
  · rename_i isKey
    rw [isKey]
    rfl
  · rfl

theorem stops_importSetting (setting : Setting) (other : Store Sealed) :
    (importSetting keyring setting).stops other = [other] := by
  unfold importSetting
  split <;> rfl

variable {Value : Type}

theorem stops_importSettings_cons (setting : Setting) (settings : List Setting)
    (next : Script (Store Sealed) VaultError Value) (other : Store Sealed) :
    ((setting :: settings).forM (importSetting keyring) >>= fun _ => next).stops other =
      other :: (settings.forM (importSetting keyring) >>= fun _ => next).stops
        (other.putSetting ⟨setting.key, writtenValue keyring setting⟩) := by
  have first : (importSetting keyring setting).carryOut other = _ :=
    carryOut_importSetting setting other
  rw [Script.stops_bind, Script.stops_bind, Script.forM_cons, Script.stops_bind_of_ok _ first,
    Script.carryOut_bind_of_ok _ first, stops_importSetting]
  rfl

theorem carryOut_importSettings_cons (setting : Setting) (settings : List Setting)
    (next : Script (Store Sealed) VaultError Value) (other : Store Sealed) :
    ((setting :: settings).forM (importSetting keyring) >>= fun _ => next).carryOut other =
      (settings.forM (importSetting keyring) >>= fun _ => next).carryOut
        (other.putSetting ⟨setting.key, writtenValue keyring setting⟩) := by
  have first : (importSetting keyring setting).carryOut other = _ :=
    carryOut_importSetting setting other
  rw [Script.carryOut_bind, Script.carryOut_bind, Script.forM_cons,
    Script.carryOut_bind_of_ok _ first]

theorem untouched_putSetting (same : Untouched store other) {setting : Setting}
    (stored : store.valueOf setting.key = some setting.value) :
    Untouched store (other.putSetting setting) := by
  refine ⟨same.rowOf, same.deletedAt, fun key => ?_, same.themes⟩
  rw [Store.valueOf_putSetting]
  split
  · rename_i isKey
    rw [isKey, stored]
  · exact same.valueOf key

/-- A setting that is stored as the file has it is not noticed; another one is, where a statement
follows. -/
theorem spares_settings {next : Script (Store Sealed) VaultError Value} {spared : Prop}
    (issues : ∀ other, next.stops other ≠ []) (rest : Script.Spares (Untouched store) next spared)
    (settings : List Setting) :
    Script.Spares (Untouched store) (settings.forM (importSetting keyring) >>= fun _ => next)
      ((∀ setting ∈ settings,
        store.valueOf setting.key = some (writtenValue keyring setting)) ∧ spared) := by
  have alwaysIssues : ∀ (settings : List Setting) (other : Store Sealed),
      (settings.forM (importSetting keyring) >>= fun _ => next).stops other ≠ [] := by
    intro settings other
    cases settings with
    | nil => exact issues other
    | cons setting settings =>
      rw [stops_importSettings_cons]
      exact cons_ne_nil _ _
  induction settings with
  | nil =>
    exact rest.congr (by simp)
  | cons setting settings inductionHypothesis =>
    refine ⟨fun other same => ?_, fun all other same error last failed => ?_⟩
    · rw [stops_importSettings_cons, forall_mem_cons, forall_mem_cons, and_assoc]
      by_cases stored : store.valueOf setting.key = some (writtenValue keyring setting)
      · rw [inductionHypothesis.stops _ (untouched_putSetting same stored), and_iff_right same,
          and_iff_right stored]
      · refine iff_of_false (fun all => stored ?_) fun all => stored all.1
        have after := all.2 _ (Script.mem_stops_of_ne_nil (alwaysIssues settings _))
        rw [← after.valueOf, Store.valueOf_putSetting, if_pos rfl]
    · rw [carryOut_importSettings_cons] at failed
      obtain ⟨stored, others⟩ := forall_mem_cons.mp all.1
      exact inductionHypothesis.ends ⟨others, all.2⟩ _ (untouched_putSetting same stored) error last
        failed

theorem newThemes_of_untouched (same : Untouched store other) (payload : ExportPayload) :
    newThemes other payload = newThemes store payload := by
  have sameMembers : ∀ theme : CustomTerminalTheme,
      theme ∈ other.customTerminalThemes.rows ↔ theme ∈ store.customTerminalThemes.rows := by
    intro theme
    have stored := same.themes theme.id
    constructor
    · exact fun member => Table.mem_of_get? (stored.symm.trans (Table.get?_of_mem member))
    · exact fun member => Table.mem_of_get? (stored.trans (Table.get?_of_mem member))
  have sameAny : ∀ holds : CustomTerminalTheme → Bool,
      other.customTerminalThemes.rows.any holds = store.customTerminalThemes.rows.any holds := by
    intro holds
    rw [Bool.eq_iff_iff, any_eq_true, any_eq_true]
    exact exists_congr fun theme => and_congr_left' (sameMembers theme)
  simp only [newThemes, themeTaken, sameAny]

theorem stops_mergeThemes {selection : ExportSelection} (payload : ExportPayload)
    (selected : selection.settings = true) (other : Store Sealed) :
    (mergeThemes selection payload).stops other =
      other :: ((newThemes other payload).forM Store.saveCustomTerminalTheme).stops other := by
  rw [mergeThemes, if_pos selected, Script.stops_bind_of_ok _ (Script.carryOut_select _ other),
    Script.stops_select, merge, Script.stops_bind_pure]
  rfl

theorem exists_carryOut_mergeThemes (selection : ExportSelection) (payload : ExportPayload)
    (other : Store Sealed) :
    ∃ tally after, (mergeThemes selection payload).carryOut other = (.ok tally, after) := by
  unfold mergeThemes
  split
  · rw [Script.carryOut_bind_of_ok _ (Script.carryOut_select _ other), merge]
    obtain ⟨after, done⟩ := Script.exists_carryOut_forM
      (fun theme before => ⟨_, rfl⟩ : ∀ theme before, ∃ after,
        (Store.saveCustomTerminalTheme theme).carryOut before = (.ok PUnit.unit, after))
      (newThemes other payload) other
    exact ⟨_, after, Script.carryOut_bind_of_ok _ done⟩
  · exact ⟨_, other, rfl⟩

/-- The first theme that is stored is noticed, where another one follows. -/
theorem spares_themes {selection : ExportSelection} {payload : ExportPayload}
    (selected : selection.settings = true) (result : Tally → Value) :
    Script.Spares (Untouched store)
      (mergeThemes selection payload >>= fun themes => pure (result themes))
      ((newThemes store payload).length ≤ 1) where
  ends _ other _ error last failed := by
    obtain ⟨tally, after, done⟩ := exists_carryOut_mergeThemes selection payload other
    rw [Script.carryOut_bind_of_ok _ done] at failed
    cases failed
  stops other same := by
    rw [Script.stops_bind_pure, stops_mergeThemes payload selected, newThemes_of_untouched same,
      forall_mem_cons, and_iff_right same]
    cases isNew : newThemes store payload with
    | nil => simp
    | cons first themes =>
      cases themes with
      | nil => exact iff_of_true (forall_mem_singleton.mpr same) (by simp)
      | cons second themes =>
        refine iff_of_false (fun all => ?_) (by simp)
        have stored : (other.putTheme first).SameTables store := by
          refine all _ (mem_append_right [other] ?_)
          exact mem_append_left _ (mem_singleton_self _)
        have taken : first ∈ newThemes store payload := isNew ▸ mem_cons_self ..
        have notTaken := (mem_accepted.mp taken).2
        rw [ne_eq, skipIfExists_eq_skipped, themeTaken, Bool.or_eq_true, not_or] at notTaken
        have found : store.customTerminalThemes.get? first.id = some first := by
          rw [← stored.themes first.id, Store.get?_putTheme, if_pos rfl]
        exact notTaken.1 (any_eq_true.mpr ⟨first, Table.mem_of_get? found, by simp⟩)

end Saves

/-! ### One kind after the other -/

section Kinds

variable {store : Store Sealed} (payload : ExportPayload)

theorem quiet_keys : Script.Quiet (Untouched store)
    (merge store.existing.ofKey (fun entry => Store.saveKey keyring entry.key entry.privateKey)
      payload.keys)
    (∀ entry ∈ payload.keys, (store.rowOf (.sshKey, entry.key.id)).isSome) := by
  simp only [← ofKey_eq_skipped]
  exact quiet_merge fun entry _ notSkipped => loud_saveWithSecret nofun
    (fresh_of_absent (mt (ofKey_eq_skipped store entry).mpr notSkipped))

theorem quiet_identities : Script.Quiet (Untouched store)
    (merge store.existing.ofIdentity
      (fun entry => Store.saveIdentity keyring entry.identity entry.password) payload.identities)
    (∀ entry ∈ payload.identities, store.HasCurrent (.identity entry.identity)) := by
  simp only [← ofIdentity_eq_skipped]
  exact quiet_merge fun entry _ notSkipped => loud_saveWithSecret nofun
    (fresh_of_not_hasCurrent (mt (ofIdentity_eq_skipped store entry).mpr notSkipped))

theorem quiet_proxyIdentities : Script.Quiet (Untouched store)
    (merge store.existing.ofProxyIdentity
      (fun entry => Store.saveProxyIdentity keyring entry.proxyIdentity entry.password)
      payload.proxyIdentities)
    (∀ entry ∈ payload.proxyIdentities, store.HasCurrent (.proxyIdentity entry.proxyIdentity)) := by
  simp only [← ofProxyIdentity_eq_skipped]
  exact quiet_merge fun entry _ notSkipped => loud_saveWithSecret nofun
    (fresh_of_not_hasCurrent (mt (ofProxyIdentity_eq_skipped store entry).mpr notSkipped))

theorem quiet_cloudProfiles : Script.Quiet (Untouched store)
    (merge store.existing.ofCloudProfile
      (fun entry => Store.saveCloudProfile keyring entry.profile entry.secret)
      payload.cloudProfiles)
    (∀ entry ∈ payload.cloudProfiles, store.HasCurrent (.cloudProfile entry.profile)) := by
  simp only [← ofCloudProfile_eq_skipped]
  exact quiet_merge fun entry _ notSkipped => loud_saveWithSecret nofun
    (fresh_of_not_hasCurrent (mt (ofCloudProfile_eq_skipped store entry).mpr notSkipped))

/-- Where the groups of the file are there, its hosts are not stopped by a group that is not. -/
theorem quiet_connections (resolve : GroupsResolve store payload)
    (groups : ∀ group ∈ payload.groups, (store.rowOf (.group, group.id)).isSome) :
    Script.Quiet (Untouched store)
      (merge store.existing.ofConnection (importConnection keyring) payload.connections)
      (∀ entry ∈ payload.connections, store.HasCurrent (.connection entry.connection)) := by
  simp only [← ofConnection_eq_skipped]
  refine quiet_merge fun entry member notSkipped => ?_
  refine loud_importConnection (fun id named => ?_)
    (mt (ofConnection_eq_skipped store entry).mpr notSkipped)
  rcases resolve entry member id named with ⟨group, inFile, rfl⟩ | there
  · exact groups group inFile
  · exact there

theorem quiet_loginScripts : Script.Quiet (Untouched store)
    (merge store.existing.ofLoginScript Store.saveLoginScript payload.loginScripts)
    (∀ script ∈ payload.loginScripts, (store.rowOf (.loginScript, script.id)).isSome) := by
  simp only [← ofLoginScript_eq_skipped]
  exact quiet_merge fun script _ notSkipped => loud_saveEntity nofun
    (mt (ofLoginScript_eq_skipped store script).mpr notSkipped)

theorem quiet_snippets : Script.Quiet (Untouched store)
    (merge store.existing.ofSnippet Store.saveSnippet payload.snippets)
    (∀ snippet ∈ payload.snippets, (store.rowOf (.snippet, snippet.id)).isSome) := by
  simp only [← ofSnippet_eq_skipped]
  exact quiet_merge fun snippet _ notSkipped => loud_saveEntity nofun
    (mt (ofSnippet_eq_skipped store snippet).mpr notSkipped)

theorem quiet_portForwardRules : Script.Quiet (Untouched store)
    (merge store.existing.ofPortForwardRule
      (fun rule => Store.savePortForwardRule (disarmed rule)) payload.portForwardRules)
    (∀ rule ∈ payload.portForwardRules, (store.rowOf (.portForwardRule, rule.id)).isSome) := by
  simp only [← ofPortForwardRule_eq_skipped]
  exact quiet_merge fun rule _ notSkipped => loud_saveEntity nofun
    (mt (ofPortForwardRule_eq_skipped store rule).mpr notSkipped)

theorem quiet_knownHosts {gone : Uuid → Stamp} : Script.Quiet (Untouched store)
    (merge store.existing.ofKnownHost (Store.saveKnownHost gone) payload.knownHosts)
    (∀ pin ∈ payload.knownHosts, store.HasPin pin) := by
  simp only [← ofKnownHost_eq_skipped]
  exact quiet_merge fun pin _ notSkipped =>
    loud_saveKnownHost (mt (ofKnownHost_eq_skipped store pin).mpr notSkipped)

theorem quiet_sessionGroups : Script.Quiet (Untouched store)
    (merge store.existing.ofSessionGroup Store.saveSessionGroup payload.sessionGroups)
    (∀ sessionGroup ∈ payload.sessionGroups,
      (store.rowOf (.sessionGroup, sessionGroup.id)).isSome) := by
  simp only [← ofSessionGroup_eq_skipped]
  exact quiet_merge fun sessionGroup _ notSkipped => loud_saveEntity nofun
    (mt (ofSessionGroup_eq_skipped store sessionGroup).mpr notSkipped)

end Kinds

/-! ### The whole import -/

section Import

variable {store : Store Sealed} {selection : ExportSelection} {gone : Uuid → Stamp}
  {payload : ExportPayload}

/-- The last part: without the settings category there are neither settings nor themes. -/
theorem spares_preferences {Value : Type}
    (noSettings : selection.settings = false → payload.settings = []) (result : Tally → Value) :
    Script.Spares (Untouched store)
      (payload.portableSettings.forM (importSetting keyring) >>= fun _ =>
        mergeThemes selection payload >>= fun themes => pure (result themes))
      ((∀ setting ∈ payload.portableSettings,
          store.valueOf setting.key = some (writtenValue keyring setting)) ∧
        (selection.settings = true → (newThemes store payload).length ≤ 1)) := by
  cases selected : selection.settings with
  | true =>
    have issues : ∀ other : Store Sealed,
        (mergeThemes selection payload >>= fun themes => pure (result themes)).stops other ≠ [] := by
      intro other
      rw [Script.stops_bind_pure, stops_mergeThemes payload selected]
      exact cons_ne_nil _ _
    have themes : Script.Spares (Untouched store)
        (mergeThemes selection payload >>= fun themes => pure (result themes))
        ((newThemes store payload).length ≤ 1) := spares_themes selected result
    exact (spares_settings issues themes _).congr (by simp)
  | false =>
    have none_ : payload.portableSettings = [] := by
      rw [ExportPayload.portableSettings, noSettings selected, filter_nil]
    rw [none_, mergeThemes, if_neg (by simp [selected])]
    refine ⟨fun other _ => iff_of_true (fun stop member => ?_) ⟨by simp, by simp⟩,
      fun _ other _ error last failed => ?_⟩
    · cases member
    · cases failed

/-- What there is to write, kind by kind and in the order of the import. -/
theorem bringsNothing_iff (themes : Prop) :
    (((∀ group ∈ payload.groups, (store.rowOf (.group, group.id)).isSome) ∧
        (payload.groups ≠ [] → ∀ id, ¬ OnCycle store.parentOf id)) ∧
      (∀ entry ∈ payload.keys, (store.rowOf (.sshKey, entry.key.id)).isSome) ∧
      (∀ entry ∈ payload.identities, store.HasCurrent (.identity entry.identity)) ∧
      (∀ entry ∈ payload.proxyIdentities, store.HasCurrent (.proxyIdentity entry.proxyIdentity)) ∧
      (∀ entry ∈ payload.cloudProfiles, store.HasCurrent (.cloudProfile entry.profile)) ∧
      (∀ entry ∈ payload.connections, store.HasCurrent (.connection entry.connection)) ∧
      (∀ script ∈ payload.loginScripts, (store.rowOf (.loginScript, script.id)).isSome) ∧
      (∀ snippet ∈ payload.snippets, (store.rowOf (.snippet, snippet.id)).isSome) ∧
      (∀ rule ∈ payload.portForwardRules, (store.rowOf (.portForwardRule, rule.id)).isSome) ∧
      (∀ pin ∈ payload.knownHosts, store.HasPin pin) ∧
      (∀ sessionGroup ∈ payload.sessionGroups,
        (store.rowOf (.sessionGroup, sessionGroup.id)).isSome) ∧
      (∀ setting ∈ payload.portableSettings,
        store.valueOf setting.key = some (writtenValue keyring setting)) ∧ themes) ↔
      BringsNothing keyring store payload ∧ themes := by
  constructor
  · rintro ⟨⟨groups, acyclic⟩, keys, identities, proxies, profiles, hosts, scripts, snippets, rules,
      pins, arrangements, settings, rest⟩
    exact ⟨⟨groups, acyclic, keys, identities, proxies, profiles, hosts, scripts, snippets, rules,
      pins, arrangements, settings⟩, rest⟩
  · rintro ⟨brings, rest⟩
    exact ⟨⟨brings.groups, brings.acyclic⟩, brings.keys, brings.identities, brings.proxyIdentities,
      brings.cloudProfiles, brings.connections, brings.loginScripts, brings.snippets,
      brings.portForwardRules, brings.knownHosts, brings.sessionGroups, brings.settings, rest⟩

theorem spares_mergePayload (resolve : GroupsResolve store payload)
    (noSettings : selection.settings = false → payload.settings = []) :
    Script.Spares (Untouched store)
      (mergePayload keyring selection gone store.existing payload)
      (BringsNothing keyring store payload ∧
        (selection.settings = true → (newThemes store payload).length ≤ 1)) := by
  refine Script.Spares.congr ?_ (bringsNothing_iff _)
  exact (quiet_mergeGroups payload).bind_spares fun groups _ =>
    (quiet_keys payload).bind_spares fun _ _ =>
    (quiet_identities payload).bind_spares fun _ _ =>
    (quiet_proxyIdentities payload).bind_spares fun _ _ =>
    (quiet_cloudProfiles payload).bind_spares fun _ _ =>
    (quiet_connections payload resolve groups.1).bind_spares fun _ _ =>
    (quiet_loginScripts payload).bind_spares fun _ _ =>
    (quiet_snippets payload).bind_spares fun _ _ =>
    (quiet_portForwardRules payload).bind_spares fun _ _ =>
    (quiet_knownHosts payload).bind_spares fun _ _ =>
    (quiet_sessionGroups payload).bind_spares fun _ _ =>
    spares_preferences noSettings _

/-! ### The file as it is -/

theorem bringsNothing_reconcile (present : EntityKey → Bool) :
    BringsNothing keyring store (payload.reconcile present) ↔
      BringsNothing keyring store payload := by
  have sameHost : ∀ host : Connection, store.HasCurrent (.connection (host.reconcile present)) ↔
      store.HasCurrent (.connection host) := fun host => hasCurrent_congr store rfl rfl
  have sameLogin : ∀ login : Identity, store.HasCurrent (.identity (login.reconcile present)) ↔
      store.HasCurrent (.identity login) := fun login => hasCurrent_congr store rfl rfl
  rw [← and_true (BringsNothing keyring store (payload.reconcile present)),
    ← and_true (BringsNothing keyring store payload), ← bringsNothing_iff, ← bringsNothing_iff]
  simp only [ExportPayload.reconcile, ExportPayload.portableSettings, forall_mem_map, ne_eq,
    map_eq_nil_iff, sameHost, sameLogin, Group.reconcile, SessionGroup.reconcile]

theorem bringsNothing_place (target : Uuid) (now : Stamp) :
    BringsNothing keyring store (payload.place store.existing target now) ↔
      BringsNothing keyring store payload := by
  have sameGroup : ∀ group : Group, (group.place store.existing target now).id = group.id := by
    intro group
    unfold Group.place
    split <;> rfl
  have sameSessionGroup : ∀ sessionGroup : SessionGroup,
      (sessionGroup.place store.existing target now).id = sessionGroup.id := by
    intro sessionGroup
    unfold SessionGroup.place
    split <;> rfl
  rw [← and_true (BringsNothing keyring store (payload.place store.existing target now)),
    ← and_true (BringsNothing keyring store payload), ← bringsNothing_iff, ← bringsNothing_iff]
  simp only [ExportPayload.place, ExportPayload.portableSettings, forall_mem_map, ne_eq,
    map_eq_nil_iff, hasCurrent_place, sameGroup, sameSessionGroup]

theorem bringsNothing_prepare (target : Option Uuid) (now : Stamp) :
    BringsNothing keyring store (payload.prepare selection store.existing target now) ↔
      BringsNothing keyring store (payload.select selection) := by
  unfold ExportPayload.prepare
  cases manualGroup store.existing target with
  | none => exact bringsNothing_reconcile _
  | some folder => exact (bringsNothing_place folder now).trans (bringsNothing_reconcile _)

/-- Once it is prepared, a file names no group that will not be there. -/
theorem groupsResolve_prepare (target : Option Uuid) (now : Stamp) :
    GroupsResolve store (payload.prepare selection store.existing target now) := by
  have reconciled : GroupsResolve store
      ((payload.select selection).reconcile ((payload.select selection).willHave store.existing)) := by
    intro entry member id named
    obtain ⟨own, ownMember, rfl⟩ := mem_map.mp member
    have there := (Option.filter_eq_some_iff.mp named).2
    rw [willHave_group] at there
    refine there.imp_left fun ⟨group, inFile, same⟩ => ?_
    exact ⟨_, mem_map_of_mem inFile, same⟩
  unfold ExportPayload.prepare
  cases honoured : manualGroup store.existing target with
  | none => exact reconciled
  | some folder =>
    intro entry member id named
    obtain ⟨own, ownMember, rfl⟩ := mem_map.mp member
    simp only [Connection.place] at named
    split at named
    · cases named
      exact .inr (isSome_of_manualGroup store honoured)
    · refine (reconciled own ownMember id named).imp_left fun ⟨group, inFile, same⟩ => ?_
      refine ⟨_, mem_map_of_mem inFile, ?_⟩
      rw [← same, Group.place]
      split <;> rfl

theorem settings_prepare (target : Option Uuid) (now : Stamp)
    (notSelected : selection.settings = false) :
    (payload.prepare selection store.existing target now).settings = [] := by
  have dropped : (payload.select selection).settings = [] := by
    simp [ExportPayload.select, notSelected]
  unfold ExportPayload.prepare
  split <;> exact dropped

theorem newThemes_prepare (target : Option Uuid) (now : Stamp) :
    newThemes store (payload.prepare selection store.existing target now) =
      newThemes store payload := by
  unfold ExportPayload.prepare
  split <;> rfl

end Import

/-! ### Any vault, any file, any engine -/

section Any

variable (selection : ExportSelection) (gone : Uuid → Stamp) (codec : FileCodec)
  (vault : Option (Keyring Key Nonce Sealed)) (data : Bytes) (password : String)
  (target : Option Uuid) (now : Stamp) (store : Store Sealed)

/-- Whatever the engine refuses, an import that returns an error leaves every table as it was. -/
def Atomic : Prop :=
  ∀ refuses error after,
    (importVault selection gone codec vault data password target now).execute refuses .database 0
        store = (.error error, after) →
      after.SameTables store

variable {selection gone codec vault data password target now store}

theorem importVault_of_opens {keyring : Keyring Key Nonce Sealed} {payload : ExportPayload}
    (opens : decryptPayload codec data password = .ok payload) :
    importVault selection gone codec (some keyring) data password target now =
      readExisting >>= fun existing =>
        mergePayload keyring selection gone existing
          (payload.prepare selection existing target now) := by
  rw [importVault, opens]

end Any

/-! ### A file of two snippets -/

/-- What the file holds. -/
def twoSnippets : ExportPayload :=
  { ExportPayload.empty with snippets := [⟨1, 10, "uptime"⟩, ⟨2, 10, "df"⟩] }

def twoSnippetsFile : Bytes := buildHeader flagIncludesKeys ++ (letters "password" ++ [1])

end Oryxis.Portable

/-
This file is `import_vault`, which merges a portable file into a store.

What the file carries is first cut down to the categories the user picked. A
reference to something that neither the file nor the store has is dropped, and what
the file adds without a place of its own is put into the folder the user had open.
Then the kinds follow one another. Most of them are only added to; identities, proxy
identities, cloud profiles and hosts are replaced by a newer copy; a pin is taken if
the store has none under its id and none for its hostname, port and key type.

Each save is several statements, and nothing groups the statements of an import.
-/

import Oryxis.Portable.Export

namespace Oryxis.Portable

open Library

/-! ### What is counted -/

inductive Verdict where
  | added
  | updated
  | skipped
  deriving DecidableEq, Repr

structure Tally where
  added : Nat
  updated : Nat
  skipped : Nat

def Tally.of (verdicts : List Verdict) : Tally where
  added := verdicts.count .added
  updated := verdicts.count .updated
  skipped := verdicts.count .skipped

structure ImportResult where
  connectionsAdded : Nat
  connectionsUpdated : Nat
  connectionsSkipped : Nat
  keysAdded : Nat
  keysSkipped : Nat
  groupsAdded : Nat
  groupsSkipped : Nat
  identitiesAdded : Nat
  identitiesUpdated : Nat
  identitiesSkipped : Nat
  proxyIdentitiesAdded : Nat
  proxyIdentitiesUpdated : Nat
  proxyIdentitiesSkipped : Nat
  cloudProfilesAdded : Nat
  cloudProfilesUpdated : Nat
  cloudProfilesSkipped : Nat
  snippetsAdded : Nat
  snippetsSkipped : Nat
  portForwardRulesAdded : Nat
  portForwardRulesSkipped : Nat
  portForwardRulesDisarmed : Nat
  knownHostsAdded : Nat
  knownHostsSkipped : Nat
  sessionGroupsAdded : Nat
  sessionGroupsSkipped : Nat
  loginScriptsAdded : Nat
  loginScriptsSkipped : Nat
  settingsImported : Nat
  customThemesAdded : Nat
  customThemesSkipped : Nat

/-! ### What the store has -/

/-- The lists an import reads before it writes anything. -/
structure Existing where
  groups : List Group
  sessionGroups : List SessionGroup
  loginScripts : List LoginScript
  connections : List Connection
  keys : List SshKey
  identities : List Identity
  proxyIdentities : List ProxyIdentity
  cloudProfiles : List CloudProfile
  portForwardRules : List PortForwardRule
  snippets : List Snippet
  knownHosts : List KnownHost

section Read

variable {Sealed : Type}

def Store.existing (store : Store Sealed) : Existing where
  groups := store.list Kind.groups
  sessionGroups := store.list Kind.sessionGroups
  loginScripts := store.list Kind.loginScripts
  connections := store.list Kind.connections
  keys := store.list Kind.keys
  identities := store.list Kind.identities
  proxyIdentities := store.list Kind.proxyIdentities
  cloudProfiles := store.list Kind.cloudProfiles
  portForwardRules := store.list Kind.portForwardRules
  snippets := store.list Kind.snippets
  knownHosts := store.list Kind.knownHosts

def readExisting : Script (Store Sealed) VaultError Existing := do
  let groups ← Script.select (Store.list Kind.groups)
  let sessionGroups ← Script.select (Store.list Kind.sessionGroups)
  let loginScripts ← Script.select (Store.list Kind.loginScripts)
  let connections ← Script.select (Store.list Kind.connections)
  let keys ← Script.select (Store.list Kind.keys)
  let identities ← Script.select (Store.list Kind.identities)
  let proxyIdentities ← Script.select (Store.list Kind.proxyIdentities)
  let cloudProfiles ← Script.select (Store.list Kind.cloudProfiles)
  let portForwardRules ← Script.select (Store.list Kind.portForwardRules)
  let snippets ← Script.select (Store.list Kind.snippets)
  let knownHosts ← Script.select (Store.list Kind.knownHosts)
  pure
    { groups := groups
      sessionGroups := sessionGroups
      loginScripts := loginScripts
      connections := connections
      keys := keys
      identities := identities
      proxyIdentities := proxyIdentities
      cloudProfiles := cloudProfiles
      portForwardRules := portForwardRules
      snippets := snippets
      knownHosts := knownHosts }

end Read

/-! ### What is dropped of the file -/

/-- The categories that were picked. The login scripts go with the hosts. -/
def ExportPayload.select (payload : ExportPayload) (selection : ExportSelection) : ExportPayload :=
  { payload with
    connections := if selection.connections then payload.connections else []
    loginScripts := if selection.connections then payload.loginScripts else []
    groups := if selection.groups then payload.groups else []
    keys := if selection.keys then payload.keys else []
    identities := if selection.identities then payload.identities else []
    proxyIdentities := if selection.proxyIdentities then payload.proxyIdentities else []
    cloudProfiles := if selection.cloudProfiles then payload.cloudProfiles else []
    snippets := if selection.snippets then payload.snippets else []
    knownHosts := if selection.knownHosts then payload.knownHosts else []
    portForwardRules := if selection.portForwardRules then payload.portForwardRules else []
    sessionGroups := if selection.sessionGroups then payload.sessionGroups else []
    settings := if selection.settings then payload.settings else [] }

def willHave (payloadIds existingIds : List Uuid) (id : Uuid) : Bool :=
  payloadIds.contains id || existingIds.contains id

/-- What a reference can be to: one of the file, or one of the store. -/
def ExportPayload.willHave (payload : ExportPayload) (existing : Existing) : EntityKey → Bool
  | (.group, id) => Portable.willHave (payload.groups.map fun group => group.id)
      (existing.groups.map fun group => group.id) id
  | (.sshKey, id) => Portable.willHave (payload.keys.map fun entry => entry.key.id)
      (existing.keys.map fun key => key.id) id
  | (.identity, id) => Portable.willHave (payload.identities.map fun entry => entry.identity.id)
      (existing.identities.map fun login => login.id) id
  | (.proxyIdentity, id) =>
    Portable.willHave (payload.proxyIdentities.map fun entry => entry.proxyIdentity.id)
      (existing.proxyIdentities.map fun proxy => proxy.id) id
  | (.cloudProfile, id) => Portable.willHave (payload.cloudProfiles.map fun entry => entry.profile.id)
      (existing.cloudProfiles.map fun profile => profile.id) id
  | _ => false

section Reconcile

variable (present : EntityKey → Bool)

/-- A reference column, or `NULL` where what it names will not be there. -/
def keepReference (type : EntityType) (reference : Option Uuid) : Option Uuid :=
  reference.filter fun id => present (type, id)

def Connection.reconcile (host : Connection) : Connection :=
  { host.stripLocalTrust with
    groupId := keepReference present .group host.groupId
    keyId := keepReference present .sshKey host.keyId
    identityId := keepReference present .identity host.identityId
    proxyIdentityId := keepReference present .proxyIdentity host.proxyIdentityId
    cloudRef := host.cloudRef.filter fun reference => present (.cloudProfile, reference.profileId) }

def Identity.reconcile (login : Identity) : Identity :=
  { login with keyId := keepReference present .sshKey login.keyId }

def Group.reconcile (group : Group) : Group :=
  { group with
    parentId := keepReference present .group group.parentId
    cloudQuery := group.cloudQuery.filter fun query => present (.cloudProfile, query.profileId) }

def SessionGroup.reconcile (sessionGroup : SessionGroup) : SessionGroup :=
  { sessionGroup with groupId := keepReference present .group sessionGroup.groupId }

def ExportPayload.reconcile (payload : ExportPayload) : ExportPayload :=
  { payload with
    connections := payload.connections.map fun entry =>
      { entry with connection := entry.connection.reconcile present }
    identities := payload.identities.map fun entry =>
      { entry with identity := entry.identity.reconcile present }
    groups := payload.groups.map (Group.reconcile present)
    sessionGroups := payload.sessionGroups.map (SessionGroup.reconcile present) }

end Reconcile

/-! ### Where what it adds is put -/

/-- Only a folder of the store that is filled by hand. -/
def manualGroup (existing : Existing) (target : Option Uuid) : Option Uuid :=
  target.filter fun id => existing.groups.any fun group =>
    group.id = id && group.cloudQuery.isNone

section Place

variable (existing : Existing) (target : Uuid) (now : Stamp)

def Connection.place (host : Connection) : Connection :=
  if host.groupId.isNone && !existing.connections.any fun own => own.id = host.id then
    { host with groupId := some target, updatedAt := now }
  else host

def Group.place (group : Group) : Group :=
  if group.parentId.isNone && !existing.groups.any fun own => own.id = group.id then
    { group with parentId := some target, updatedAt := now }
  else group

def SessionGroup.place (sessionGroup : SessionGroup) : SessionGroup :=
  if sessionGroup.groupId.isNone &&
      !existing.sessionGroups.any fun own => own.id = sessionGroup.id then
    { sessionGroup with groupId := some target, updatedAt := now }
  else sessionGroup

def ExportPayload.place (payload : ExportPayload) : ExportPayload :=
  { payload with
    connections := payload.connections.map fun entry =>
      { entry with connection := entry.connection.place existing target now }
    groups := payload.groups.map (Group.place existing target now)
    sessionGroups := payload.sessionGroups.map (SessionGroup.place existing target now) }

end Place

/-- What an import does to the file before it writes anything. -/
def ExportPayload.prepare (payload : ExportPayload) (selection : ExportSelection)
    (existing : Existing) (target : Option Uuid) (now : Stamp) : ExportPayload :=
  let selected := payload.select selection
  let reconciled := selected.reconcile (selected.willHave existing)
  match manualGroup existing target with
  | none => reconciled
  | some folder => reconciled.place existing folder now

/-! ### Verdicts -/

/-- A kind that is only added to. -/
def skipIfExists (known : Bool) : Verdict := if known then .skipped else .added

/-- A kind that is replaced by a newer copy. -/
def lastWriterWins (stored : Option Stamp) (incoming : Stamp) : Verdict :=
  match stored with
  | none => .added
  | some own => if own < incoming then .updated else .skipped

def alreadyPinned (existing : Existing) (pin : KnownHost) : Bool :=
  existing.knownHosts.any fun own =>
    own.id = pin.id ||
      (own.hostname = pin.hostname && own.port = pin.port && own.keyType = pin.keyType)

/-- A theme the store has, or one whose name another theme has. -/
def themeTaken (existing : List CustomTerminalTheme) (theme : CustomTerminalTheme) : Bool :=
  existing.any (fun own => own.id = theme.id) ||
    existing.any fun own => own.id ≠ theme.id && own.name = theme.name

namespace Existing

variable (existing : Existing)

def ofGroup (group : Group) : Verdict :=
  skipIfExists (existing.groups.any fun own => own.id = group.id)

def ofKey (entry : ExportKey) : Verdict :=
  skipIfExists (existing.keys.any fun own => own.id = entry.key.id)

def ofIdentity (entry : ExportIdentity) : Verdict :=
  lastWriterWins ((existing.identities.find? fun own => own.id = entry.identity.id).map
    fun own => own.updatedAt) entry.identity.updatedAt

def ofProxyIdentity (entry : ExportProxyIdentity) : Verdict :=
  lastWriterWins ((existing.proxyIdentities.find? fun own => own.id = entry.proxyIdentity.id).map
    fun own => own.updatedAt) entry.proxyIdentity.updatedAt

def ofCloudProfile (entry : ExportCloudProfile) : Verdict :=
  lastWriterWins ((existing.cloudProfiles.find? fun own => own.id = entry.profile.id).map
    fun own => own.updatedAt) entry.profile.updatedAt

def ofConnection (entry : ExportConnection) : Verdict :=
  lastWriterWins ((existing.connections.find? fun own => own.id = entry.connection.id).map
    fun own => own.updatedAt) entry.connection.updatedAt

def ofLoginScript (script : LoginScript) : Verdict :=
  skipIfExists (existing.loginScripts.any fun own => own.id = script.id)

def ofSnippet (snippet : Snippet) : Verdict :=
  skipIfExists (existing.snippets.any fun own => own.id = snippet.id)

def ofPortForwardRule (rule : PortForwardRule) : Verdict :=
  skipIfExists (existing.portForwardRules.any fun own => own.id = rule.id)

def ofKnownHost (pin : KnownHost) : Verdict := skipIfExists (alreadyPinned existing pin)

def ofSessionGroup (sessionGroup : SessionGroup) : Verdict :=
  skipIfExists (existing.sessionGroups.any fun own => own.id = sessionGroup.id)

end Existing

/-! ### The merge -/

section Merge

variable {Sealed : Type}

/-- What is left of a list of the file once the verdicts are in. -/
def accepted {Item : Type} (verdict : Item → Verdict) (items : List Item) : List Item :=
  items.filter fun item => verdict item != .skipped

/-- The loop of one kind. -/
def merge {Item : Type} (verdict : Item → Verdict)
    (saveItem : Item → Script (Store Sealed) VaultError PUnit) (items : List Item) :
    Script (Store Sealed) VaultError Tally := do
  (accepted verdict items).forM saveItem
  pure (Tally.of (items.map verdict))

/-- Save a group without its parent. -/
def detachGroup (groups : List Group) (id : Uuid) : Script (Store Sealed) VaultError PUnit :=
  match groups.find? fun group => group.id = id with
  | none => pure PUnit.unit
  | some group => Store.saveGroup { group with parentId := none }

/-- The repair of the tree the file and the store make together. -/
def breakCycles : Script (Store Sealed) VaultError PUnit := do
  let merged ← Script.select (Store.list Kind.groups)
  (Oryxis.Group.cycleBreakers (merged.map Group.toGroup)).forM (detachGroup merged)

/-- An imported rule does not dial by itself. -/
def disarmed (rule : PortForwardRule) : PortForwardRule := { rule with autoStart := false }

section Secret

variable {Key Nonce : Type} (keyring : Keyring Key Nonce Sealed)

def importConnection (entry : ExportConnection) : Script (Store Sealed) VaultError PUnit := do
  Store.saveConnection keyring entry.connection entry.password
  Store.setProxyPassword keyring entry.connection.id entry.proxyPassword
  Store.setConnectionTotpSecret keyring entry.connection.id entry.totpSecret
  Store.setConnectionTargetPassword keyring entry.connection.id entry.targetPassword

def importSetting (setting : Setting) : Script (Store Sealed) VaultError PUnit :=
  if setting.key = Store.aiApiKey then Store.setAiApiKey keyring setting.value
  else Store.setSetting setting.key setting.value

/-- The settings a file may set. -/
def ExportPayload.portableSettings (payload : ExportPayload) : List Setting :=
  payload.settings.filter fun setting => isPortableSetting setting.key

variable (selection : ExportSelection) (gone : Uuid → Stamp) (existing : Existing)
  (payload : ExportPayload)

def repairMerged : Script (Store Sealed) VaultError PUnit :=
  if payload.groups.isEmpty then pure PUnit.unit else breakCycles

def mergeGroups : Script (Store Sealed) VaultError Tally := do
  let tally ← merge existing.ofGroup Store.saveGroup payload.groups
  repairMerged payload
  pure tally

def mergeThemes : Script (Store Sealed) VaultError Tally :=
  if selection.settings then do
    let themes ← Script.select fun store => store.customTerminalThemes.rows
    merge (fun theme => skipIfExists (themeTaken themes theme)) Store.saveCustomTerminalTheme
      payload.customTerminalThemes
  else pure (Tally.of [])

/-- The import of a file that has been prepared. `gone` is what the clock says when a pin goes. -/
def mergePayload : Script (Store Sealed) VaultError ImportResult := do
  let groups ← mergeGroups existing payload
  let keys ← merge existing.ofKey (fun entry => Store.saveKey keyring entry.key entry.privateKey)
    payload.keys
  let identities ← merge existing.ofIdentity
    (fun entry => Store.saveIdentity keyring entry.identity entry.password) payload.identities
  let proxyIdentities ← merge existing.ofProxyIdentity
    (fun entry => Store.saveProxyIdentity keyring entry.proxyIdentity entry.password)
    payload.proxyIdentities
  let cloudProfiles ← merge existing.ofCloudProfile
    (fun entry => Store.saveCloudProfile keyring entry.profile entry.secret) payload.cloudProfiles
  let connections ← merge existing.ofConnection (importConnection keyring) payload.connections
  let loginScripts ← merge existing.ofLoginScript Store.saveLoginScript payload.loginScripts
  let snippets ← merge existing.ofSnippet Store.saveSnippet payload.snippets
  let rules ← merge existing.ofPortForwardRule
    (fun rule => Store.savePortForwardRule (disarmed rule)) payload.portForwardRules
  let pins ← merge existing.ofKnownHost (Store.saveKnownHost gone) payload.knownHosts
  let sessionGroups ← merge existing.ofSessionGroup Store.saveSessionGroup payload.sessionGroups
  payload.portableSettings.forM (importSetting keyring)
  let themes ← mergeThemes selection payload
  pure
    { connectionsAdded := connections.added
      connectionsUpdated := connections.updated
      connectionsSkipped := connections.skipped
      keysAdded := keys.added
      keysSkipped := keys.skipped
      groupsAdded := groups.added
      groupsSkipped := groups.skipped
      identitiesAdded := identities.added
      identitiesUpdated := identities.updated
      identitiesSkipped := identities.skipped
      proxyIdentitiesAdded := proxyIdentities.added
      proxyIdentitiesUpdated := proxyIdentities.updated
      proxyIdentitiesSkipped := proxyIdentities.skipped
      cloudProfilesAdded := cloudProfiles.added
      cloudProfilesUpdated := cloudProfiles.updated
      cloudProfilesSkipped := cloudProfiles.skipped
      snippetsAdded := snippets.added
      snippetsSkipped := snippets.skipped
      portForwardRulesAdded := rules.added
      portForwardRulesSkipped := rules.skipped
      portForwardRulesDisarmed :=
        (accepted existing.ofPortForwardRule payload.portForwardRules).countP
          PortForwardRule.autoStart
      knownHostsAdded := pins.added
      knownHostsSkipped := pins.skipped
      sessionGroupsAdded := sessionGroups.added
      sessionGroupsSkipped := sessionGroups.skipped
      loginScriptsAdded := loginScripts.added
      loginScriptsSkipped := loginScripts.skipped
      settingsImported := payload.portableSettings.length
      customThemesAdded := themes.added
      customThemesSkipped := themes.skipped }

/-- `vault` is what the store is unlocked with; a locked one has none. -/
def importVault (codec : FileCodec) (vault : Option (Keyring Key Nonce Sealed)) (data : Bytes)
    (password : String) (target : Option Uuid) (now : Stamp) :
    Script (Store Sealed) VaultError ImportResult :=
  match vault with
  | none => .fail .locked
  | some keyring =>
    match decryptPayload codec data password with
    | .error error => .fail error
    | .ok payload => do
      let existing ← readExisting
      mergePayload keyring selection gone existing (payload.prepare selection existing target now)

end Secret

end Merge

/-! ### The lists it reads -/

section Read

variable {Sealed : Type} (store : Store Sealed)

theorem carryOut_readExisting :
    readExisting.carryOut store = (.ok store.existing, store) := rfl

theorem stops_readExisting : readExisting.stops store = List.replicate 11 store := rfl

/-! ### What the verdicts mean -/

theorem mem_accepted {Item : Type} {verdict : Item → Verdict} {items : List Item} {item : Item} :
    item ∈ accepted verdict items ↔ item ∈ items ∧ verdict item ≠ .skipped := by
  simp [accepted]

theorem skipIfExists_eq_skipped {known : Bool} : skipIfExists known = .skipped ↔ known = true := by
  cases known <;> simp [skipIfExists]

theorem lastWriterWins_eq_skipped {stored : Option Stamp} {incoming : Stamp} :
    lastWriterWins stored incoming = .skipped ↔ ∃ own, stored = some own ∧ ¬ own < incoming := by
  cases stored with
  | none => simp [lastWriterWins]
  | some own =>
    by_cases older : own < incoming
    · simp [lastWriterWins, older]
    · simp [lastWriterWins, not_lt.mp older]

/-- The store has a copy of an entity, and the other one is not newer. -/
def Store.HasCurrent (entity : Entity) : Prop :=
  ∃ own, store.entityOf entity.key = some own ∧ ¬ own.updatedAt < entity.updatedAt

section Kinds

variable {Model : Type} (kind : Kind Model) {idOf : Model → Uuid}

theorem skipIfExists_list (same : ∀ model, (kind.wrap model).id = idOf model) (id : Uuid) :
    skipIfExists ((store.list kind).any fun own => decide (idOf own = id)) = .skipped ↔
      (store.rowOf (kind.type, id)).isSome := by
  rw [skipIfExists_eq_skipped, store.any_list kind same]

theorem lastWriterWins_list {stampOf : Model → Stamp}
    (same : ∀ model, (kind.wrap model).id = idOf model)
    (sameStamp : ∀ model, (kind.wrap model).updatedAt = stampOf model) (incoming : Model) :
    lastWriterWins (((store.list kind).find? fun own => decide (idOf own = idOf incoming)).map
        stampOf) (stampOf incoming) = .skipped ↔ store.HasCurrent (kind.wrap incoming) := by
  have sameKey : (kind.wrap incoming).key = (kind.type, idOf incoming) :=
    Prod.ext (kind.entityType_wrap incoming) (same incoming)
  rw [lastWriterWins_eq_skipped, store.stamp_list kind same sameStamp, Store.HasCurrent, sameKey,
    sameStamp]
  constructor
  · rintro ⟨_, mapped, notOlder⟩
    obtain ⟨own, stored, rfl⟩ := Option.map_eq_some_iff.mp mapped
    exact ⟨own, stored, notOlder⟩
  · rintro ⟨own, stored, notOlder⟩
    exact ⟨_, Option.map_eq_some_iff.mpr ⟨own, stored, rfl⟩, notOlder⟩

end Kinds

theorem ofGroup_eq_skipped (group : Group) :
    store.existing.ofGroup group = .skipped ↔ (store.rowOf (.group, group.id)).isSome :=
  skipIfExists_list store Kind.groups (fun _ => rfl) group.id

theorem ofKey_eq_skipped (entry : ExportKey) :
    store.existing.ofKey entry = .skipped ↔ (store.rowOf (.sshKey, entry.key.id)).isSome :=
  skipIfExists_list store Kind.keys (fun _ => rfl) entry.key.id

theorem ofLoginScript_eq_skipped (script : LoginScript) :
    store.existing.ofLoginScript script = .skipped ↔
      (store.rowOf (.loginScript, script.id)).isSome :=
  skipIfExists_list store Kind.loginScripts (fun _ => rfl) script.id

theorem ofSnippet_eq_skipped (snippet : Snippet) :
    store.existing.ofSnippet snippet = .skipped ↔ (store.rowOf (.snippet, snippet.id)).isSome :=
  skipIfExists_list store Kind.snippets (fun _ => rfl) snippet.id

theorem ofPortForwardRule_eq_skipped (rule : PortForwardRule) :
    store.existing.ofPortForwardRule rule = .skipped ↔
      (store.rowOf (.portForwardRule, rule.id)).isSome :=
  skipIfExists_list store Kind.portForwardRules (fun _ => rfl) rule.id

theorem ofSessionGroup_eq_skipped (sessionGroup : SessionGroup) :
    store.existing.ofSessionGroup sessionGroup = .skipped ↔
      (store.rowOf (.sessionGroup, sessionGroup.id)).isSome :=
  skipIfExists_list store Kind.sessionGroups (fun _ => rfl) sessionGroup.id

theorem ofIdentity_eq_skipped (entry : ExportIdentity) :
    store.existing.ofIdentity entry = .skipped ↔
      store.HasCurrent (.identity entry.identity) :=
  lastWriterWins_list store Kind.identities (fun _ => rfl) (fun _ => rfl) entry.identity

theorem ofProxyIdentity_eq_skipped (entry : ExportProxyIdentity) :
    store.existing.ofProxyIdentity entry = .skipped ↔
      store.HasCurrent (.proxyIdentity entry.proxyIdentity) :=
  lastWriterWins_list store Kind.proxyIdentities (fun _ => rfl) (fun _ => rfl) entry.proxyIdentity

theorem ofCloudProfile_eq_skipped (entry : ExportCloudProfile) :
    store.existing.ofCloudProfile entry = .skipped ↔
      store.HasCurrent (.cloudProfile entry.profile) :=
  lastWriterWins_list store Kind.cloudProfiles (fun _ => rfl) (fun _ => rfl) entry.profile

theorem ofConnection_eq_skipped (entry : ExportConnection) :
    store.existing.ofConnection entry = .skipped ↔
      store.HasCurrent (.connection entry.connection) :=
  lastWriterWins_list store Kind.connections (fun _ => rfl) (fun _ => rfl) entry.connection

/-- The store has a pin under the id, or one of the hostname, port and key type. -/
def Store.HasPin (pin : KnownHost) : Prop :=
  ∃ own ∈ store.list Kind.knownHosts, own.id = pin.id ∨
    (own.hostname = pin.hostname ∧ own.port = pin.port ∧ own.keyType = pin.keyType)

theorem ofKnownHost_eq_skipped (pin : KnownHost) :
    store.existing.ofKnownHost pin = .skipped ↔ store.HasPin pin := by
  simp [Existing.ofKnownHost, skipIfExists_eq_skipped, alreadyPinned, Store.HasPin,
    Store.existing, and_assoc]

end Read

/-! ### What can be referred to -/

section Presence

variable {Sealed : Type} (store : Store Sealed) (payload : ExportPayload)

theorem willHave_list {Model : Type} (kind : Kind Model) {idOf : Model → Uuid}
    (same : ∀ model, (kind.wrap model).id = idOf model) (ids : List Uuid) (id : Uuid) :
    willHave ids ((store.list kind).map idOf) id = true ↔
      id ∈ ids ∨ (store.rowOf (kind.type, id)).isSome := by
  rw [willHave, Bool.or_eq_true, List.contains_iff_mem, List.contains_iff_mem,
    ← store.any_list kind same, List.any_eq_true, List.mem_map]
  simp only [decide_eq_true_eq]

theorem willHave_group (id : Uuid) : payload.willHave store.existing (.group, id) = true ↔
    (∃ group ∈ payload.groups, group.id = id) ∨ (store.rowOf (.group, id)).isSome := by
  rw [← List.mem_map]
  exact willHave_list store Kind.groups (fun _ => rfl) _ id

/-- A target that is honoured is a group of the store. -/
theorem isSome_of_manualGroup {target : Option Uuid} {folder : Uuid}
    (honoured : manualGroup store.existing target = some folder) :
    (store.rowOf (.group, folder)).isSome := by
  obtain ⟨_, isManual⟩ := Option.filter_eq_some_iff.mp honoured
  obtain ⟨group, member, same⟩ := List.any_eq_true.mp isManual
  rw [Bool.and_eq_true, decide_eq_true_eq] at same
  have listed := store.any_list Kind.groups (fun _ => rfl : ∀ group : Group,
    (Kind.groups.wrap group).id = group.id) folder
  exact listed.symm.trans (List.any_eq_true.mpr ⟨group, member, decide_eq_true same.1⟩)

theorem hasCurrent_congr {entity other : Entity} (sameKey : entity.key = other.key)
    (sameStamp : entity.updatedAt = other.updatedAt) :
    store.HasCurrent entity ↔ store.HasCurrent other := by
  rw [Store.HasCurrent, Store.HasCurrent, sameKey, sameStamp]

theorem not_hasCurrent_of_absent {entity : Entity} (absent : store.rowOf entity.key = none) :
    ¬ store.HasCurrent entity := by
  rintro ⟨own, stored, _⟩
  rw [Store.entityOf, absent] at stored
  cases stored

/-- Only a host the store does not know is placed. -/
theorem hasCurrent_place (target : Uuid) (now : Stamp) (host : Connection) :
    store.HasCurrent (.connection (host.place store.existing target now)) ↔
      store.HasCurrent (.connection host) := by
  unfold Connection.place
  split
  · rename_i isNew
    rw [Bool.and_eq_true, Bool.not_eq_true'] at isNew
    have listed := store.any_list Kind.connections (fun _ => rfl : ∀ host : Connection,
      (Kind.connections.wrap host).id = host.id) host.id
    have unknown : store.rowOf (.connection, host.id) = none := by
      rw [← Option.not_isSome_iff_eq_none]
      intro there
      exact Bool.false_ne_true (isNew.2.symm.trans (listed.trans there))
    exact iff_of_false (not_hasCurrent_of_absent store unknown)
      (not_hasCurrent_of_absent store unknown)
  · rfl

end Presence

end Oryxis.Portable

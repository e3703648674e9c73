/-
This file is the store's public interface: one `save_*` and one `delete_*` for
each synced entity, and the setters of the secret columns that a save carries
over instead of writing.

Most of them are the plain statement of `Oryxis.Vault.Store` under the entity's
own name. Four are not. Saving a connection can be refused by the reference to
its group, and so can deleting a group. Deleting a connection also deletes the
port-forward rules that name it as their host. Deleting an identity, a proxy
identity or a login script first clears the column that names it on every host.
Saving a known host first deletes every other pin of the same hostname, port and
key type -- and then the statement itself displaces a pin of another key type on
the same hostname and port, because the table is unique on that pair.
-/

import Oryxis.Vault.Store

namespace Oryxis

open Library

/-! ### What is stored of an entity -/

/-- All-default Telnet options are written as `NULL`, and so are the variables of a host that
names no login script. -/
def Connection.stored (host : Connection) : Connection :=
  { host with
    telnet := host.telnet.filter fun options => !options.isDefault
    loginScriptVars := if host.loginScriptId.isSome then host.loginScriptVars else [] }

/-- All-unset group defaults are written as `NULL`. -/
def Group.stored (group : Group) : Group :=
  { group with defaults := group.defaults.filter fun defaults => !defaults.isEmpty }

/-- A reference column after `SET column = NULL WHERE column = gone`. -/
def clearReference (gone : EntityKey) (type : EntityType) (reference : Option Uuid) :
    Option Uuid :=
  reference.filter fun id => (type, id) != gone

/-- A host after the deletion of an identity, a proxy identity or a login script. -/
def Connection.detach (gone : EntityKey) (host : Connection) : Connection :=
  { host with
    identityId := clearReference gone .identity host.identityId
    proxyIdentityId := clearReference gone .proxyIdentity host.proxyIdentityId
    loginScriptId := clearReference gone .loginScript host.loginScriptId
    loginScriptVars :=
      if host.loginScriptId.map (Prod.mk .loginScript) = some gone then []
      else host.loginScriptVars }

def Row.detach (gone : EntityKey) : Row → Row
  | .connection host secrets => .connection (host.detach gone) secrets
  | row => row

@[simp] theorem Row.key_detach (gone : EntityKey) (row : Row) : (row.detach gone).key = row.key := by
  cases row <;> rfl

@[simp] theorem Row.endpoint_detach (gone : EntityKey) (row : Row) :
    (row.detach gone).endpoint = row.endpoint := by
  cases row <;> rfl

@[simp] theorem Row.updatedAt_detach (gone : EntityKey) (row : Row) :
    (row.detach gone).updatedAt = row.updatedAt := by
  cases row <;> rfl

/-- A change of the secret columns of one host. -/
def Row.updateSecrets (id : Uuid) (change : ConnectionSecrets → ConnectionSecrets) : Row → Row
  | .connection host secrets =>
    .connection host (if host.id = id then change secrets else secrets)
  | row => row

@[simp] theorem Row.key_updateSecrets (id : Uuid)
    (change : ConnectionSecrets → ConnectionSecrets) (row : Row) :
    (row.updateSecrets id change).key = row.key := by
  cases row <;> rfl

@[simp] theorem Row.endpoint_updateSecrets (id : Uuid)
    (change : ConnectionSecrets → ConnectionSecrets) (row : Row) :
    (row.updateSecrets id change).endpoint = row.endpoint := by
  cases row <;> rfl

namespace VaultStore

/-- `UPDATE connections SET column = NULL WHERE column = gone`. -/
def detach (vault : VaultStore) (gone : EntityKey) : VaultStore :=
  { vault with
    rows := vault.rows.update (Row.detach gone) (Row.key_detach gone) (Row.endpoint_detach gone) }

/-! ### Saves -/

/-- Whether storing a host breaks `REFERENCES groups(id)`. -/
def missesGroup (vault : VaultStore) (host : Connection) : Bool :=
  match host.groupId with
  | none => false
  | some groupId => vault.foreignKeys && (vault.rowOf (.group, groupId)).isNone

def saveConnection (vault : VaultStore) (host : Connection) (password : Option String) :
    Except VaultError VaultStore :=
  if vault.missesGroup host then .error .foreignKey
  else
    let stored := vault.secretsOf host.id
    .ok (vault.replaceRow (.connection host.stored
      { stored with password := secretColumn password stored.password }))

def saveKey (vault : VaultStore) (key : SshKey) (privateKey : Option String) : VaultStore :=
  vault.replaceRow (.sshKey key (secretColumn privateKey (vault.getKeyPrivate key.id)))

def saveIdentity (vault : VaultStore) (identity : Identity) (password : Option String) :
    VaultStore :=
  vault.replaceRow
    (.identity identity (secretColumn password (vault.getIdentityPassword identity.id)))

def saveProxyIdentity (vault : VaultStore) (identity : ProxyIdentity)
    (password : Option String) : VaultStore :=
  vault.replaceRow
    (.proxyIdentity identity (secretColumn password (vault.getProxyIdentityPassword identity.id)))

def saveCloudProfile (vault : VaultStore) (profile : CloudProfile) (secret : Option String) :
    VaultStore :=
  vault.replaceRow
    (.cloudProfile profile (secretColumn secret (vault.getCloudProfileSecret profile.id)))

def saveGroup (vault : VaultStore) (group : Group) : VaultStore :=
  vault.replaceRow (.group group.stored)

def saveSessionGroup (vault : VaultStore) (sessionGroup : SessionGroup) : VaultStore :=
  vault.replaceRow (.sessionGroup sessionGroup)

def saveSnippet (vault : VaultStore) (snippet : Snippet) : VaultStore :=
  vault.replaceRow (.snippet snippet)

def savePortForwardRule (vault : VaultStore) (rule : PortForwardRule) : VaultStore :=
  vault.replaceRow (.portForwardRule rule)

def saveLoginScript (vault : VaultStore) (script : LoginScript) : VaultStore :=
  vault.replaceRow (.loginScript script)

/-! ### Deletes -/

def deleteKey (vault : VaultStore) (id : Uuid) (now : Stamp) : VaultStore :=
  vault.removeRow (.sshKey, id) now

def deleteSnippet (vault : VaultStore) (id : Uuid) (now : Stamp) : VaultStore :=
  vault.removeRow (.snippet, id) now

def deleteKnownHost (vault : VaultStore) (id : Uuid) (now : Stamp) : VaultStore :=
  vault.removeRow (.knownHost, id) now

def deleteCloudProfile (vault : VaultStore) (id : Uuid) (now : Stamp) : VaultStore :=
  vault.removeRow (.cloudProfile, id) now

def deletePortForwardRule (vault : VaultStore) (id : Uuid) (now : Stamp) : VaultStore :=
  vault.removeRow (.portForwardRule, id) now

def deleteSessionGroup (vault : VaultStore) (id : Uuid) (now : Stamp) : VaultStore :=
  vault.removeRow (.sessionGroup, id) now

def deleteIdentity (vault : VaultStore) (id : Uuid) (now : Stamp) : VaultStore :=
  (vault.detach (.identity, id)).removeRow (.identity, id) now

def deleteProxyIdentity (vault : VaultStore) (id : Uuid) (now : Stamp) : VaultStore :=
  (vault.detach (.proxyIdentity, id)).removeRow (.proxyIdentity, id) now

def deleteLoginScript (vault : VaultStore) (id : Uuid) (now : Stamp) : VaultStore :=
  (vault.detach (.loginScript, id)).removeRow (.loginScript, id) now

/-- Whether deleting a group breaks `REFERENCES groups(id)`. -/
def groupInUse (vault : VaultStore) (id : Uuid) : Bool :=
  vault.foreignKeys && (vault.rowOf (.group, id)).isSome &&
    vault.listConnections.any fun host => host.groupId = some id

def deleteGroup (vault : VaultStore) (id : Uuid) (now : Stamp) : Except VaultError VaultStore :=
  if vault.groupInUse id then .error .foreignKey else .ok (vault.removeRow (.group, id) now)

/-- The port-forward rules a host leaves behind. -/
def orphanRules (vault : VaultStore) (hostId : Uuid) : List Uuid :=
  (vault.listPortForwardRules.filter fun rule => rule.hostId = hostId).map PortForwardRule.id

def deleteConnection (vault : VaultStore) (id : Uuid) (now : Stamp) : VaultStore :=
  let vault := vault.removeRow (.connection, id) now
  (vault.orphanRules id).foldl (fun vault ruleId => vault.deletePortForwardRule ruleId now) vault

/-! ### Pins -/

/-- The other pins of the same hostname, port and key type. -/
def stalePins (vault : VaultStore) (pin : KnownHost) : List Uuid :=
  (vault.listKnownHosts.filter fun other =>
    other.hostname = pin.hostname && other.port = pin.port && other.keyType = pin.keyType &&
      other.id != pin.id).map KnownHost.id

def saveKnownHost (vault : VaultStore) (pin : KnownHost) (now : Stamp) : VaultStore :=
  ((vault.stalePins pin).foldl (fun vault id => vault.deleteKnownHost id now) vault).replaceRow
    (.knownHost pin)

/-! ### Secret columns a save carries over -/

/-- `UPDATE connections SET ... WHERE id = id`, on the secret columns. -/
def updateSecrets (vault : VaultStore) (id : Uuid)
    (change : ConnectionSecrets → ConnectionSecrets) : VaultStore :=
  { vault with
    rows := vault.rows.update (Row.updateSecrets id change) (Row.key_updateSecrets id change)
      (Row.endpoint_updateSecrets id change) }

def setProxyPassword (vault : VaultStore) (id : Uuid) (password : Option String) : VaultStore :=
  vault.updateSecrets id fun secrets =>
    { secrets with proxyPassword := password.filter fun value => value != "" }

def setConnectionTotpSecret (vault : VaultStore) (id : Uuid) (secret : Option String) :
    VaultStore :=
  vault.updateSecrets id fun secrets =>
    { secrets with totpSecret := secret.filter fun value => value != "" }

def setConnectionTargetPassword (vault : VaultStore) (id : Uuid) (password : Option String) :
    VaultStore :=
  vault.updateSecrets id fun secrets =>
    { secrets with targetPassword := password.filter fun value => value != "" }

end VaultStore

end Oryxis

/-
This file gathers the store's saves and deletes into one operation each: the save
of an entity with the secret its caller passes along, and the delete of an entity
named by its type and id.

It is what a device does to its own vault. Both come with the description of
`Oryxis.Vault.Effects` they meet, so that a run of local writes needs one case for
saves and one for deletes instead of one for every entity type.
-/

import Oryxis.Vault.Effects

namespace Oryxis

/-- An entity to save, with the secret argument of its `save_*` method. -/
inductive EntitySave where
  | connection (host : Connection) (password : Option String)
  | sshKey (key : SshKey) (privateKey : Option String)
  | identity (identity : Identity) (password : Option String)
  | group (group : Group)
  | snippet (snippet : Snippet)
  | knownHost (pin : KnownHost)
  | proxyIdentity (proxyIdentity : ProxyIdentity) (password : Option String)
  | cloudProfile (profile : CloudProfile) (secret : Option String)
  | portForwardRule (rule : PortForwardRule)
  | sessionGroup (sessionGroup : SessionGroup)
  | loginScript (script : LoginScript)

namespace VaultStore

def saveEntity (vault : VaultStore) (now : Stamp) : EntitySave → Except VaultError VaultStore
  | .connection host password => vault.saveConnection host password
  | .sshKey key privateKey => .ok (vault.saveKey key privateKey)
  | .identity identity password => .ok (vault.saveIdentity identity password)
  | .group group => .ok (vault.saveGroup group)
  | .snippet snippet => .ok (vault.saveSnippet snippet)
  | .knownHost pin => .ok (vault.saveKnownHost pin now)
  | .proxyIdentity identity password => .ok (vault.saveProxyIdentity identity password)
  | .cloudProfile profile secret => .ok (vault.saveCloudProfile profile secret)
  | .portForwardRule rule => .ok (vault.savePortForwardRule rule)
  | .sessionGroup sessionGroup => .ok (vault.saveSessionGroup sessionGroup)
  | .loginScript script => .ok (vault.saveLoginScript script)

/-- The delete of an entity named by its type and id. -/
def deleteEntity (vault : VaultStore) (key : EntityKey) (now : Stamp) :
    Except VaultError VaultStore :=
  match key with
  | (.connection, id) => .ok (vault.deleteConnection id now)
  | (.sshKey, id) => .ok (vault.deleteKey id now)
  | (.identity, id) => .ok (vault.deleteIdentity id now)
  | (.proxyIdentity, id) => .ok (vault.deleteProxyIdentity id now)
  | (.group, id) => vault.deleteGroup id now
  | (.sessionGroup, id) => .ok (vault.deleteSessionGroup id now)
  | (.snippet, id) => .ok (vault.deleteSnippet id now)
  | (.knownHost, id) => .ok (vault.deleteKnownHost id now)
  | (.cloudProfile, id) => .ok (vault.deleteCloudProfile id now)
  | (.portForwardRule, id) => .ok (vault.deletePortForwardRule id now)
  | (.loginScript, id) => .ok (vault.deleteLoginScript id now)

/-! ### What they do -/

/-- The row a save stores. -/
def savedRow (vault : VaultStore) : EntitySave → Row
  | .connection host password =>
    .connection host.stored { vault.secretsOf host.id with
      password := secretColumn password (vault.secretsOf host.id).password }
  | .sshKey key privateKey => .sshKey key (secretColumn privateKey (vault.getKeyPrivate key.id))
  | .identity identity password =>
    .identity identity (secretColumn password (vault.getIdentityPassword identity.id))
  | .group group => .group group.stored
  | .snippet snippet => .snippet snippet
  | .knownHost pin => .knownHost pin
  | .proxyIdentity identity password =>
    .proxyIdentity identity (secretColumn password (vault.getProxyIdentityPassword identity.id))
  | .cloudProfile profile secret =>
    .cloudProfile profile (secretColumn secret (vault.getCloudProfileSecret profile.id))
  | .portForwardRule rule => .portForwardRule rule
  | .sessionGroup sessionGroup => .sessionGroup sessionGroup
  | .loginScript script => .loginScript script

variable {vault : VaultStore} {now : Stamp}

theorem saves_saveEntity {saved : VaultStore} {save : EntitySave}
    (done : vault.saveEntity now save = .ok saved) :
    vault.Saves (vault.savedRow save) now saved := by
  cases save with
  | connection host password => exact saves_saveConnection done now
  | knownHost pin =>
    cases done
    exact vault.saves_saveKnownHost pin now
  | _ =>
    cases done
    exact vault.saves_replaceRow _ now rfl

variable {key : EntityKey}

theorem deletes_deleteEntity {deleted : VaultStore}
    (done : vault.deleteEntity key now = .ok deleted) : vault.Deletes key now deleted := by
  obtain ⟨type, id⟩ := key
  cases type with
  | connection =>
    cases done
    exact vault.deletes_deleteConnection id now
  | identity | proxyIdentity | loginScript =>
    cases done
    exact vault.deletes_detach_removeRow now (by simp)
  | group => exact deletes_deleteGroup done
  | _ =>
    cases done
    exact vault.deletes_removeRow now (by simp) (by simp) (by simp) (by simp)

/-- Only the delete of a group in use is refused. -/
theorem deleteEntity_error {error : VaultError}
    (refused : vault.deleteEntity key now = .error error) :
    key.1 = .group ∧ vault.groupInUse key.2 = true ∧ error = .foreignKey := by
  obtain ⟨type, id⟩ := key
  cases type with
  | group =>
    simp only [deleteEntity, deleteGroup] at refused
    split at refused
    · rename_i inUse
      cases refused
      exact ⟨rfl, inUse, rfl⟩
    · cases refused
  | _ => cases refused

theorem free_of_deleteEntity {deleted : VaultStore}
    (done : vault.deleteEntity key now = .ok deleted) :
    ¬(key.1 = .group ∧ vault.groupInUse key.2 = true) := by
  rintro ⟨isGroup, inUse⟩
  obtain ⟨type, id⟩ := key
  subst isGroup
  rw [deleteEntity, deleteGroup, if_pos inUse] at done
  cases done

end VaultStore

end Oryxis

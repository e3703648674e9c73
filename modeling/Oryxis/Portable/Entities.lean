/-
This file holds the entities a portable file carries, with the columns an import
looks at.

Most of them are the entities of `Oryxis.Vault.Entities`. Four have references in
columns that nothing but the file reads: the key, the jump hosts and the cloud
account of a host, the cloud query of a dynamic group, the key of an identity and
the folder of a session group.

What a store keeps of an entity is not always the entity: all-default options are
written as `NULL`, and only some kinds have secret columns. A `Row` is in that form
by construction, so a store cannot hold what its own saves would have written
otherwise.
-/

import Oryxis.Vault.Operations

namespace Oryxis.Portable

structure CloudRef where
  profileId : Uuid
  rest : String
  deriving DecidableEq, Repr

/-- What every host a dynamic group resolves is given. -/
structure ConnectionTemplate where
  keyId : Option Uuid
  identityId : Option Uuid
  rest : String
  deriving DecidableEq, Repr

structure CloudQuery where
  profileId : Uuid
  template : ConnectionTemplate
  rest : String
  deriving DecidableEq, Repr

structure Connection extends Oryxis.Connection where
  keyId : Option Uuid
  jumpChain : List Uuid
  cloudRef : Option CloudRef
  deriving DecidableEq, Repr

structure Group extends Oryxis.Group where
  cloudQuery : Option CloudQuery
  deriving DecidableEq, Repr

structure Identity extends Oryxis.Identity where
  keyId : Option Uuid
  deriving DecidableEq, Repr

structure SessionGroup extends Oryxis.SessionGroup where
  groupId : Option Uuid
  deriving DecidableEq, Repr

structure Setting where
  key : String
  value : String
  deriving DecidableEq, Repr

structure CustomTerminalTheme where
  id : Uuid
  name : String
  rest : String
  deriving DecidableEq, Repr

/-! ### An entity of any kind -/

inductive Entity where
  | connection (host : Connection)
  | sshKey (key : SshKey)
  | identity (identity : Identity)
  | group (group : Group)
  | snippet (snippet : Snippet)
  | knownHost (pin : KnownHost)
  | proxyIdentity (proxyIdentity : ProxyIdentity)
  | cloudProfile (profile : CloudProfile)
  | portForwardRule (rule : PortForwardRule)
  | sessionGroup (sessionGroup : SessionGroup)
  | loginScript (script : LoginScript)
  deriving DecidableEq, Repr

namespace Entity

/-- The entity without the columns only the file reads, as a row without secrets. -/
def plain : Entity → Oryxis.Row
  | .connection host => .connection host.toConnection ConnectionSecrets.unset
  | .sshKey key => .sshKey key none
  | .identity login => .identity login.toIdentity none
  | .group folder => .group folder.toGroup
  | .snippet text => .snippet text
  | .knownHost pin => .knownHost pin
  | .proxyIdentity proxy => .proxyIdentity proxy none
  | .cloudProfile profile => .cloudProfile profile none
  | .portForwardRule rule => .portForwardRule rule
  | .sessionGroup arrangement => .sessionGroup arrangement.toSessionGroup
  | .loginScript script => .loginScript script

def entityType (entity : Entity) : EntityType := entity.plain.entityType

def id (entity : Entity) : Uuid := entity.plain.id

def key (entity : Entity) : EntityKey := entity.plain.key

def endpoint (entity : Entity) : Option (String × Nat) := entity.plain.endpoint

def updatedAt (entity : Entity) : Stamp := entity.plain.updatedAt

end Entity

/-! ### What is stored of an entity -/

def Connection.stored (host : Connection) : Connection :=
  { host with toConnection := host.toConnection.stored }

def Group.stored (group : Group) : Group := { group with toGroup := group.toGroup.stored }

def Entity.stored : Entity → Entity
  | .connection host => .connection host.stored
  | .group folder => .group folder.stored
  | entity => entity

namespace Entity

@[simp] theorem stored_stored (entity : Entity) : entity.stored.stored = entity.stored := by
  cases entity with
  | connection host =>
    simp only [stored, Connection.stored, Oryxis.Connection.stored, Option.filter_filter,
      Bool.and_self]
    cases host.loginScriptId <;> rfl
  | group group =>
    simp only [stored, Group.stored, Oryxis.Group.stored, Option.filter_filter, Bool.and_self]
  | _ => rfl

@[simp] theorem key_stored (entity : Entity) : entity.stored.key = entity.key := by
  cases entity <;> rfl

@[simp] theorem entityType_stored (entity : Entity) :
    entity.stored.entityType = entity.entityType := by
  cases entity <;> rfl

@[simp] theorem updatedAt_stored (entity : Entity) :
    entity.stored.updatedAt = entity.updatedAt := by
  cases entity <;> rfl

end Entity

/-! ### Secret columns -/

/-- The secret columns of a row: the one of every kind that has a secret (a password, a private
key, the secret of a cloud account) and the three only a host has. -/
structure Secrets (Text : Type) where
  own : Option Text
  proxyPassword : Option Text
  totpSecret : Option Text
  targetPassword : Option Text
  deriving DecidableEq, Repr

def hasSecret : EntityType → Bool
  | .connection | .sshKey | .identity | .proxyIdentity | .cloudProfile => true
  | _ => false

namespace Secrets

variable {Text Other : Type}

def unset : Secrets Text := ⟨none, none, none, none⟩

/-- The columns a kind of entity has. -/
def limited (type : EntityType) (secrets : Secrets Text) : Secrets Text where
  own := if hasSecret type then secrets.own else none
  proxyPassword := if type = .connection then secrets.proxyPassword else none
  totpSecret := if type = .connection then secrets.totpSecret else none
  targetPassword := if type = .connection then secrets.targetPassword else none

@[simp] theorem limited_limited (type : EntityType) (secrets : Secrets Text) :
    (secrets.limited type).limited type = secrets.limited type := by
  unfold limited
  split <;> split <;> rfl

end Secrets

/-! ### Stored rows -/

/-- A row of one of the tables: what is stored of an entity, and the secret columns next to it. -/
structure Row (Sealed : Type) where
  entity : Entity
  secrets : Secrets Sealed
  normal : entity.stored = entity
  fits : secrets.limited entity.entityType = secrets
  deriving DecidableEq

namespace Row

variable {Sealed : Type}

/-- The row a save writes. -/
def of (entity : Entity) (secrets : Secrets Sealed) : Row Sealed where
  entity := entity.stored
  secrets := secrets.limited entity.entityType
  normal := entity.stored_stored
  fits := by rw [Entity.entityType_stored, Secrets.limited_limited]

def key (row : Row Sealed) : EntityKey := row.entity.key

def endpoint (row : Row Sealed) : Option (String × Nat) := row.entity.endpoint

/-- A row of the same entity with other secrets. -/
def withSecrets (row : Row Sealed) (change : Secrets Sealed → Secrets Sealed) : Row Sealed :=
  of row.entity (change row.secrets)

@[simp] theorem entity_withSecrets (row : Row Sealed)
    (change : Secrets Sealed → Secrets Sealed) : (row.withSecrets change).entity = row.entity :=
  row.normal

end Row

/-! ### The kinds -/

/-- The entities of one type, out of all of them. -/
structure Kind (Model : Type) where
  type : EntityType
  wrap : Model → Entity
  unwrap : Entity → Option Model
  unwrap_eq_some : ∀ {entity model}, unwrap entity = some model ↔ entity = wrap model := by
    intro entity model
    cases entity <;> simp
  entityType_wrap : ∀ model, (wrap model).entityType = type := by
    intro model
    rfl
  exists_wrap : ∀ {entity : Entity}, entity.entityType = type → ∃ model, entity = wrap model := by
    intro entity same
    cases entity <;> first | exact ⟨_, rfl⟩ | cases same

namespace Kind

def connections : Kind Connection where
  type := .connection
  wrap := .connection
  unwrap entity := match entity with
    | .connection model => some model
    | _ => none

def keys : Kind SshKey where
  type := .sshKey
  wrap := .sshKey
  unwrap entity := match entity with
    | .sshKey model => some model
    | _ => none

def identities : Kind Identity where
  type := .identity
  wrap := .identity
  unwrap entity := match entity with
    | .identity model => some model
    | _ => none

def groups : Kind Group where
  type := .group
  wrap := .group
  unwrap entity := match entity with
    | .group model => some model
    | _ => none

def snippets : Kind Snippet where
  type := .snippet
  wrap := .snippet
  unwrap entity := match entity with
    | .snippet model => some model
    | _ => none

def knownHosts : Kind KnownHost where
  type := .knownHost
  wrap := .knownHost
  unwrap entity := match entity with
    | .knownHost model => some model
    | _ => none

def proxyIdentities : Kind ProxyIdentity where
  type := .proxyIdentity
  wrap := .proxyIdentity
  unwrap entity := match entity with
    | .proxyIdentity model => some model
    | _ => none

def cloudProfiles : Kind CloudProfile where
  type := .cloudProfile
  wrap := .cloudProfile
  unwrap entity := match entity with
    | .cloudProfile model => some model
    | _ => none

def portForwardRules : Kind PortForwardRule where
  type := .portForwardRule
  wrap := .portForwardRule
  unwrap entity := match entity with
    | .portForwardRule model => some model
    | _ => none

def sessionGroups : Kind SessionGroup where
  type := .sessionGroup
  wrap := .sessionGroup
  unwrap entity := match entity with
    | .sessionGroup model => some model
    | _ => none

def loginScripts : Kind LoginScript where
  type := .loginScript
  wrap := .loginScript
  unwrap entity := match entity with
    | .loginScript model => some model
    | _ => none

variable {Model : Type} (kind : Kind Model)

/-- What an entity of the kind is stored under. -/
def key (model : Model) : EntityKey := (kind.wrap model).key

@[simp] theorem unwrap_wrap (model : Model) : kind.unwrap (kind.wrap model) = some model :=
  kind.unwrap_eq_some.mpr rfl

theorem wrap_injective : Function.Injective kind.wrap := fun left right same => by
  have unwrapped := kind.unwrap_wrap left
  rw [same, unwrap_wrap] at unwrapped
  exact (Option.some.inj unwrapped).symm

end Kind

end Oryxis.Portable

/-
This file is what a dial of a host sends and where: the login a host ends up with once
its folders have had their say, the proxy, the route, and the secrets of the vault that
go over it.

A host's own password wins over its identity's, and a host that stores a password or
names a key takes no identity from its folders; the identity it names itself it has in
any case, whether its password is ever sent or not.
-/

import Oryxis.Library.Table
import Oryxis.Vault.Entities

namespace Oryxis.Writes

open Library

/-! ### The vault -/

/-- A host's own password; the text a call gave is not one the vault stored at the start. -/
structure Password where
  text : String
  given : Bool

structure Connection where
  id : Uuid
  label : String
  hostname : String
  port : Nat
  isSsh : Bool
  mcpEnabled : Bool
  groupId : Option Uuid
  keyId : Option Uuid
  identityId : Option Uuid
  jumpChain : List Uuid
  proxy : Option ProxyConfig
  proxyIdentityId : Option Uuid
  password : Option Password
  totpSecret : Option String

structure Identity where
  id : Uuid
  label : String
  password : Option String

structure SshKey where
  id : Uuid
  label : String

structure ProxyIdentity where
  id : Uuid
  config : ProxyConfig

structure GroupDefaults where
  identityId : Option Uuid
  proxyIdentityId : Option Uuid

structure Group where
  id : Uuid
  label : String
  parentId : Option Uuid
  isManual : Bool
  defaults : Option GroupDefaults

structure VaultStore where
  allowWrites : Bool
  connections : Table Connection.id Table.noIndex
  groups : List Group
  identities : List Identity
  keys : List SshKey
  proxyIdentities : List ProxyIdentity

/-! ### Folders -/

def maxAncestryDepth : Nat := 1024

/-- The folders above and including one, the nearest first, as far as a walk of so many gets. -/
def ancestryFrom (groups : List Group) : Nat → List Uuid → Option Uuid → List Group
  | 0, _, _ => []
  | _ + 1, _, none => []
  | fuel + 1, seen, some id =>
    if id ∈ seen then []
    else
      match groups.find? fun group => group.id = id with
      | none => []
      | some group => group :: ancestryFrom groups fuel (id :: seen) group.parentId

def ancestry (groups : List Group) (id : Uuid) : List Group :=
  ancestryFrom groups maxAncestryDepth [] (some id)

/-- The labels from the root down. A walk passes no folder twice. -/
def pathOf (groups : List Group) (id : Uuid) : String :=
  " / ".intercalate ((ancestryFrom groups groups.length [] (some id)).map Group.label).reverse

namespace VaultStore

def chain (vault : VaultStore) (conn : Connection) : List Group :=
  match conn.groupId with
  | some id => ancestry vault.groups id
  | none => []

/-! ### What a host ends up with -/

def connectionHasPassword (vault : VaultStore) (id : Uuid) : Bool :=
  (vault.connections.get? id).any fun conn => conn.password.isSome

/-- The identity of `effective_login`: the host's own, or the nearest folder's for a host that
answers no credentials. -/
def effectiveLogin (vault : VaultStore) (conn : Connection) (answersCredentials : Bool) :
    Option Uuid :=
  conn.identityId.or <|
    if answersCredentials then none
    else (vault.chain conn).findSome? fun group =>
      (group.defaults.bind GroupDefaults.identityId).filter fun id =>
        vault.identities.any fun identity => identity.id = id

def effectiveIdentity (vault : VaultStore) (conn : Connection) : Option Uuid :=
  vault.effectiveLogin conn (conn.keyId.isSome || vault.connectionHasPassword conn.id)

def getProxyIdentity (vault : VaultStore) (id : Uuid) : Option ProxyConfig :=
  (vault.proxyIdentities.find? fun identity => identity.id = id).map ProxyIdentity.config

/-- The host's own proxy. A reference to one that is gone is none. -/
def resolveProxy (vault : VaultStore) (conn : Connection) : Option ProxyConfig :=
  match conn.proxyIdentityId with
  | some id => vault.getProxyIdentity id
  | none => conn.proxy

def effectiveProxy (vault : VaultStore) (conn : Connection) : Option ProxyConfig :=
  (vault.resolveProxy conn).or <| (vault.chain conn).findSome? fun group =>
    (group.defaults.bind GroupDefaults.proxyIdentityId).bind vault.getProxyIdentity

/-- Names of hosts are compared without regard to case. -/
def endpoint (conn : Connection) : String × Nat :=
  (String.ofList (conn.hostname.toList.map Char.toLower), conn.port)

structure Route where
  endpoint : String × Nat
  jumpChain : List Uuid
  proxy : Option ProxyConfig
  deriving DecidableEq, Repr

/-- Where a dial lands: its address, its jump chain, and the proxy it ends up with. -/
def route (vault : VaultStore) (conn : Connection) : Route where
  endpoint := endpoint conn
  jumpChain := conn.jumpChain
  proxy := vault.effectiveProxy conn

def identityHasPassword (vault : VaultStore) (id : Uuid) : Bool :=
  vault.identities.any fun identity => identity.id = id && identity.password.isSome

/-! ### What a dial sends -/

/-- A secret the vault stored at the start. -/
inductive Secret
  | password (host : Uuid)
  | totp (host : Uuid)
  | identityPassword (identity : Uuid)
  deriving DecidableEq, Repr

/-- The password of `resolve_credentials`, where it is one the vault stored: the host's own first,
its identity's second. -/
def sentPassword (vault : VaultStore) (conn : Connection) : Option Secret :=
  match (vault.connections.get? conn.id).bind Connection.password with
  | some password => if password.given then none else some (.password conn.id)
  | none => ((vault.effectiveIdentity conn).filter vault.identityHasPassword).map .identityPassword

/-- The stored secrets a dial of the host authenticates with. -/
def dialSecrets (vault : VaultStore) (conn : Connection) : List Secret :=
  (vault.sentPassword conn).toList ++
    if ((vault.connections.get? conn.id).bind Connection.totpSecret).isSome then [.totp conn.id]
    else []

/-- What a dial depends on, beside the host's own row. -/
structure SameBeside (vault other : VaultStore) : Prop where
  groups : other.groups = vault.groups
  identities : other.identities = vault.identities
  proxyIdentities : other.proxyIdentities = vault.proxyIdentities

variable {vault other : VaultStore}

theorem route_of_same (same : SameBeside vault other) (conn : Connection) :
    other.route conn = vault.route conn := by
  have chain : other.chain conn = vault.chain conn := by
    unfold chain
    rw [same.groups]
  have lookup : other.getProxyIdentity = vault.getProxyIdentity := funext fun id => by
    unfold getProxyIdentity
    rw [same.proxyIdentities]
  have proxy : other.effectiveProxy conn = vault.effectiveProxy conn := by
    unfold effectiveProxy resolveProxy
    rw [chain, lookup]
  unfold route
  rw [proxy]

theorem effectiveLogin_of_same (same : SameBeside vault other) (conn : Connection)
    (answers : Bool) : other.effectiveLogin conn answers = vault.effectiveLogin conn answers := by
  have chain : other.chain conn = vault.chain conn := by
    unfold chain
    rw [same.groups]
  unfold effectiveLogin
  rw [chain, same.identities]

/-- A host whose row is what it was is dialled as it was. -/
theorem dialSecrets_of_same (same : SameBeside vault other) {conn : Connection}
    (row : other.connections.get? conn.id = vault.connections.get? conn.id) :
    other.dialSecrets conn = vault.dialSecrets conn := by
  have identity : other.effectiveIdentity conn = vault.effectiveIdentity conn := by
    unfold effectiveIdentity connectionHasPassword
    rw [row]
    exact effectiveLogin_of_same same conn _
  have stored : other.identityHasPassword = vault.identityHasPassword := funext fun id => by
    unfold identityHasPassword
    rw [same.identities]
  unfold dialSecrets sentPassword
  rw [row, identity, stored]

/-- A host that stores no password sends that of the identity it ends up with. -/
theorem sentPassword_of_none {conn : Connection} {identity : Uuid}
    (own : vault.connectionHasPassword conn.id = false)
    (isIdentity : vault.effectiveIdentity conn = some identity)
    (stored : vault.identityHasPassword identity = true) :
    .identityPassword identity ∈ vault.dialSecrets conn := by
  have none : (vault.connections.get? conn.id).bind Connection.password = none := by
    unfold connectionHasPassword at own
    cases row : vault.connections.get? conn.id with
    | none => rfl
    | some conn =>
      rw [row] at own
      exact Option.isNone_iff_eq_none.mp (Option.isSome_eq_false_iff.mp own)
  refine List.mem_append_left _ (Option.mem_toList.mpr ?_)
  unfold sentPassword
  rw [none, isIdentity]
  show Option.map _ (Option.filter _ (some identity)) = _
  rw [Option.filter_some, if_pos stored]
  rfl

end VaultStore

end Oryxis.Writes

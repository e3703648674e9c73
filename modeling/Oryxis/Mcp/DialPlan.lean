/-
This file is the plan a headless server resolves for a dial of one of the vault's hosts: the host
with what its folders and identities fill in, the route it is reached over with every hop resolved
the same way, and the signature by which a connection made for one plan is taken for another.

The signature is a hash over a written sequence of bytes. What the hash makes of the bytes, how
the JSON of a proxy reads and what a command proxy's fingerprint is come from other crates; which
values are written, in which order and in which form, is here. Credentials themselves are no part
of the signature and stay out.
-/

import Oryxis.Library.PrefixCode
import Oryxis.Vault.Entities

namespace Oryxis.Routes

open Library List

/-! ### The vault -/

/-- A `Uuid` of 16 bytes. -/
abbrev Uuid := BitVec 128

inductive AuthMethod
  | auto
  | password
  | key
  | agent
  | interactive
  | passwordPrompt
  | certificate
  | securityKey
  deriving DecidableEq, Repr

inductive AddressFamily
  | auto
  | v4
  | v6
  deriving DecidableEq, Repr

structure ProxyConfig where
  proxyType : ProxyType
  host : String
  port : UInt16
  username : Option String
  password : Option String

/-- The columns of a host that decide where a dial of it lands and who it authenticates as. -/
structure Connection where
  id : Uuid
  hostname : String
  port : UInt16
  isSsh : Bool
  mcpEnabled : Bool
  addressFamily : AddressFamily
  username : Option String
  authMethod : AuthMethod
  keyId : Option Uuid
  useDiskKey : Bool
  identityFile : Option String
  identityId : Option Uuid
  groupId : Option Uuid
  jumpChain : List Uuid
  proxy : Option ProxyConfig
  proxyIdentityId : Option Uuid
  ciphers : Option (List String)
  kex : Option (List String)
  macs : Option (List String)
  hostKeyAlgorithms : Option (List String)

structure Identity where
  id : Uuid
  username : Option String

structure ProxyIdentity where
  id : Uuid
  proxyType : ProxyType
  host : String
  port : UInt16
  username : Option String

structure GroupDefaults where
  username : Option String
  identityId : Option Uuid
  proxyIdentityId : Option Uuid

structure Group where
  id : Uuid
  parentId : Option Uuid
  defaults : Option GroupDefaults

structure KnownHost where
  hostname : String
  port : UInt16
  keyType : String
  fingerprint : String

inductive Query
  | listMcpConnections
  | listConnections
  | listGroups
  | listIdentities
  | listKnownHosts
  | listTrustedProxyCommands
  | proxyIdentity (id : Uuid)

/-- The rows of a vault, and which queries fail and with which text. A password that cannot be
read or decrypted is not there. -/
structure VaultStore where
  connections : List Connection
  groups : List Group
  identities : List Identity
  proxyIdentities : List ProxyIdentity
  knownHosts : List KnownHost
  trustedProxyCommands : List String
  connectionHasPassword : Uuid → Bool
  proxyPassword : Uuid → Option String
  proxyIdentityPassword : Uuid → Option String
  failure : Query → Option String

namespace VaultStore

variable (vault : VaultStore)

def answer {Rows : Type} (query : Query) (rows : Rows) : Except String Rows :=
  match vault.failure query with
  | some text => .error text
  | none => .ok rows

def listMcpConnections : Except String (List Connection) :=
  vault.answer .listMcpConnections
    (vault.connections.filter fun conn => conn.mcpEnabled && conn.isSsh)

def listConnections : Except String (List Connection) :=
  vault.answer .listConnections vault.connections

def listGroups : Except String (List Group) := vault.answer .listGroups vault.groups

def listIdentities : Except String (List Identity) :=
  vault.answer .listIdentities vault.identities

def listKnownHosts : Except String (List KnownHost) :=
  vault.answer .listKnownHosts vault.knownHosts

def listTrustedProxyCommands : Except String (List String) :=
  vault.answer .listTrustedProxyCommands vault.trustedProxyCommands

def getProxyIdentity (id : Uuid) : Except String (Option ProxyIdentity) :=
  vault.answer (.proxyIdentity id) (vault.proxyIdentities.find? fun ident => ident.id = id)

end VaultStore

/-- `unwrap_or_default` of a list. -/
def orEmpty {Row : Type} : Except String (List Row) → List Row
  | .ok rows => rows
  | .error _ => []

/-! ### Folders -/

def maxAncestryDepth : Nat := 1024

def ancestryFrom (groups : List Group) : Nat → List Uuid → Option Uuid → List Group
  | 0, _, _ => []
  | _ + 1, _, none => []
  | left + 1, seen, some id =>
    if id ∈ seen then []
    else
      match groups.find? fun group => group.id = id with
      | none => []
      | some group => group :: ancestryFrom groups left (id :: seen) group.parentId

/-- A folder and those above it, the nearest first. -/
def ancestry (groups : List Group) (id : Uuid) : List Group :=
  ancestryFrom groups maxAncestryDepth [] (some id)

structure EffectiveLogin where
  username : Option String
  identityId : Option Uuid

def nonEmpty (text : Option String) : Option String := text.filter fun text => !text.isEmpty

def inheritLogin (identities : List Identity) (hostAnswersCredentials : Bool)
    (login : EffectiveLogin) (group : Group) : EffectiveLogin :=
  match group.defaults with
  | none => login
  | some defaults =>
    { username := login.username.or (nonEmpty defaults.username)
      identityId := login.identityId.or <|
        if hostAnswersCredentials then none
        else defaults.identityId.filter fun id => identities.any fun ident => ident.id = id }

def effectiveLogin (conn : Connection) (chain : List Group) (identities : List Identity)
    (hostAnswersCredentials : Bool) : EffectiveLogin :=
  let login := chain.foldl (inheritLogin identities hostAnswersCredentials)
    ⟨nonEmpty conn.username, conn.identityId⟩
  { login with
    username := login.username.or <| login.identityId.bind fun id =>
      (identities.find? fun ident => ident.id = id).bind fun ident => nonEmpty ident.username }

namespace VaultStore

variable (vault : VaultStore)

/-- The proxy of an identity, with its password; one that is gone is none. -/
def identityProxy (id : Uuid) : Except String (Option ProxyConfig) := do
  let found ← vault.getProxyIdentity id
  pure (found.map fun ident =>
    { proxyType := ident.proxyType
      host := ident.host
      port := ident.port
      username := ident.username
      password := vault.proxyIdentityPassword id })

def resolveProxy (conn : Connection) : Except String (Option ProxyConfig) :=
  match conn.proxyIdentityId with
  | some id => vault.identityProxy id
  | none =>
    .ok (conn.proxy.map fun inline => { inline with password := vault.proxyPassword conn.id })

def inheritProxy (proxy : Option ProxyConfig) (group : Group) :
    Except String (Option ProxyConfig) :=
  match proxy, group.defaults.bind GroupDefaults.proxyIdentityId with
  | some proxy, _ => .ok (some proxy)
  | none, some id => vault.identityProxy id
  | none, none => .ok none

structure EffectiveConfig where
  login : EffectiveLogin
  proxy : Option ProxyConfig

def resolveEffective (conn : Connection) (groups : List Group) (identities : List Identity) :
    Except String EffectiveConfig := do
  let chain := (conn.groupId.map (ancestry groups)).getD []
  let hostAnswersCredentials := conn.keyId.isSome || vault.connectionHasPassword conn.id
  let own ← vault.resolveProxy conn
  let proxy ← chain.foldlM vault.inheritProxy own
  pure ⟨effectiveLogin conn chain identities hostAnswersCredentials, proxy⟩

/-- A host with what it inherits filled in; where that cannot be read, with its own proxy. -/
def applyEffective (groups : List Group) (identities : List Identity) (conn : Connection) :
    Connection :=
  match vault.resolveEffective conn groups identities with
  | .error _ => { conn with proxy := (vault.resolveProxy conn).toOption.join }
  | .ok effective =>
    { conn with
      proxy := effective.proxy
      username :=
        if (conn.username.getD "").isEmpty then effective.login.username else conn.username
      identityId := conn.identityId.or effective.login.identityId }

end VaultStore

/-! ### The route -/

structure Walked where
  visited : List Uuid
  out : List Uuid

/-- A hop behind its own hops; the first argument bounds how deep hops lie behind hops. -/
def pushRoute (connections : List Connection) : Nat → Walked → Uuid → Walked
  | 0, walked, _ => walked
  | depth + 1, walked, id =>
    if id ∈ walked.visited then walked
    else
      let entered := { walked with visited := id :: walked.visited }
      let behind :=
        match connections.find? fun conn => conn.id = id with
        | some hop => hop.jumpChain.foldl (pushRoute connections depth) entered
        | none => entered
      { behind with out := behind.out ++ [id] }

/-- The full route of a chain. A host is entered once, so no more than all hosts lie behind each
other. -/
def expandedJumpChain (targetId : Uuid) (chain : List Uuid) (connections : List Connection) :
    List Uuid :=
  (chain.foldl (pushRoute connections (connections.length + 1)) ⟨[targetId], []⟩).out

section Routes

variable {connections : List Connection} {depth : Nat}

theorem visited_subset_pushRoute (walked : Walked) (id : Uuid) :
    walked.visited ⊆ (pushRoute connections depth walked id).visited := by
  induction depth generalizing walked id with
  | zero => exact Subset.refl _
  | succ depth ih =>
    have folded (hops : List Uuid) (walked : Walked) :
        walked.visited ⊆ (hops.foldl (pushRoute connections depth) walked).visited := by
      induction hops generalizing walked with
      | nil => exact Subset.refl _
      | cons hop hops ihHops => exact Subset.trans (ih walked hop) (ihHops _)
    rw [pushRoute]
    split
    · exact Subset.refl _
    · refine Subset.trans (subset_cons_self id walked.visited) ?_
      dsimp only
      cases connections.find? fun conn => conn.id = id with
      | none => exact Subset.refl _
      | some hop => exact folded hop.jumpChain ⟨id :: walked.visited, walked.out⟩

/-- How many hosts a walk has not entered. -/
def unvisited (connections : List Connection) (visited : List Uuid) : Nat :=
  (connections.filter fun conn => conn.id ∉ visited).length

theorem unvisited_le {visited more : List Uuid} (subset : visited ⊆ more) :
    unvisited connections more ≤ unvisited connections visited := by
  refine Sublist.length_le (monotone_filter_right _ fun conn new => ?_)
  simp only [decide_eq_true_eq] at new ⊢
  exact fun member => new (subset member)

theorem unvisited_cons_lt {visited : List Uuid} {conn : Connection} (listed : conn ∈ connections)
    (new : conn.id ∉ visited) :
    unvisited connections (conn.id :: visited) < unvisited connections visited := by
  have fewer : connections.filter (fun other => other.id ∉ conn.id :: visited)
      = (connections.filter fun other => other.id ∉ visited).filter
        fun other => other.id ≠ conn.id := by
    rw [filter_filter]
    refine filter_congr fun other _ => ?_
    simp [mem_cons, not_or]
  rw [unvisited, unvisited, fewer]
  refine length_filter_lt_length_iff_exists.mpr
    ⟨conn, mem_filter.mpr ⟨listed, decide_eq_true new⟩, ?_⟩
  simp

/-- A bound that exceeds the hosts not yet entered is never reached. -/
theorem pushRoute_succ {walked : Walked} (enough : unvisited connections walked.visited < depth)
    (id : Uuid) :
    pushRoute connections (depth + 1) walked id = pushRoute connections depth walked id := by
  induction depth generalizing walked id with
  | zero => exact absurd enough (Nat.not_lt_zero _)
  | succ depth ih =>
    rw [pushRoute, pushRoute]
    split
    · rfl
    · rename_i new
      dsimp only
      cases found : connections.find? fun conn => conn.id = id with
      | none => rfl
      | some hop =>
        have isId : hop.id = id := by simpa using find?_some found
        have fewer := unvisited_cons_lt (mem_of_find?_eq_some found) (isId ▸ new)
        rw [isId] at fewer
        have folded (hops : List Uuid) (later : Walked)
            (since : id :: walked.visited ⊆ later.visited) :
            hops.foldl (pushRoute connections (depth + 1)) later
              = hops.foldl (pushRoute connections depth) later := by
          induction hops generalizing later with
          | nil => rfl
          | cons pre hops ihHops =>
            have left : unvisited connections later.visited
                ≤ unvisited connections (id :: walked.visited) := unvisited_le since
            rw [foldl_cons, foldl_cons, ih (by omega) pre]
            exact ihHops _ (Subset.trans since (visited_subset_pushRoute later pre))
        dsimp only
        rw [folded _ _ (Subset.refl _)]

/-- With any greater bound a route is the same. -/
theorem expandedJumpChain_of_lt (targetId : Uuid) (chain : List Uuid)
    (enough : connections.length < depth) :
    (chain.foldl (pushRoute connections depth) ⟨[targetId], []⟩).out
      = expandedJumpChain targetId chain connections := by
  have same : pushRoute connections depth = pushRoute connections (connections.length + 1) := by
    induction enough with
    | refl => rfl
    | @step depth enough ih =>
      rw [← ih]
      refine funext fun walked => funext fun id => pushRoute_succ ?_ id
      have below : unvisited connections walked.visited ≤ connections.length :=
        length_filter_le _ _
      exact Nat.lt_of_le_of_lt below enough
  rw [expandedJumpChain, same]

end Routes
/-! ### The signature -/

/-- What comes from other crates: the hash and how a hash is itself written to another, the JSON
of a proxy, and the fingerprint of a command proxy's line. -/
structure Crates where
  Digest : Type
  finish : List UInt8 → Digest
  writeDigest : Digest → List UInt8
  proxyJson : Option ProxyConfig → String
  proxyCommandFingerprint : String → String

def AuthMethod.debug : AuthMethod → String
  | .auto => "Auto"
  | .password => "Password"
  | .key => "Key"
  | .agent => "Agent"
  | .interactive => "Interactive"
  | .passwordPrompt => "PasswordPrompt"
  | .certificate => "Certificate"
  | .securityKey => "SecurityKey"

def AddressFamily.debug : AddressFamily → String
  | .auto => "Auto"
  | .v4 => "V4"
  | .v6 => "V6"

def boolCode (value : Bool) : List UInt8 := [if value then 1 else 0]

def portCode (port : UInt16) : List UInt8 := toLe 2 port.toNat

/-- The sixteen bytes of an id, as a slice of them is written. -/
def uuidCode (id : Uuid) : List UInt8 := toLe 8 16 ++ toBe 16 id.toNat

/-- What `dial_signature` writes, in the order it writes it. -/
def dialBytes (crates : Crates) (conn : Connection) : List UInt8 :=
  textCode conn.hostname ++ (portCode conn.port ++ (optionCode textCode conn.username ++
    (textCode conn.authMethod.debug ++ (optionCode uuidCode conn.keyId ++
    (optionCode uuidCode conn.identityId ++ (boolCode conn.useDiskKey ++
    (optionCode textCode conn.identityFile ++ (countedCode uuidCode conn.jumpChain ++
    (optionCode uuidCode conn.proxyIdentityId ++ (textCode (crates.proxyJson conn.proxy) ++
    (textCode conn.addressFamily.debug ++ (optionCode (countedCode textCode) conn.ciphers ++
    (optionCode (countedCode textCode) conn.kex ++ (optionCode (countedCode textCode) conn.macs ++
    optionCode (countedCode textCode) conn.hostKeyAlgorithms))))))))))))))

def dialSignature (crates : Crates) (conn : Connection) : crates.Digest :=
  crates.finish (dialBytes crates conn)

/-- A host name and a port. -/
abbrev Endpoint := String × UInt16

/-- A key type and a fingerprint. -/
abbrev Pin := String × String

def pinLe (first second : Pin) : Bool :=
  if first.1 = second.1 then decide (first.2 ≤ second.2) else decide (first.1 ≤ second.1)

def pinsOf (pins : List KnownHost) (endpoint : Endpoint) : List Pin :=
  (pins.filter fun pin => pin.hostname = endpoint.1 && pin.port = endpoint.2).map fun pin =>
    (pin.keyType, pin.fingerprint)

def pinCode (pin : Pin) : List UInt8 := textCode pin.1 ++ textCode pin.2

/-- The pins of one endpoint, sorted. -/
def pinsCode (pins : List Pin) : List UInt8 := countedCode pinCode (pins.mergeSort pinLe)

def commandApproval (crates : Crates) (trustedProxyCommands : List String)
    (proxy : Option ProxyConfig) : Option Bool :=
  match proxy.map ProxyConfig.proxyType with
  | some (.command line) => some (crates.proxyCommandFingerprint line ∈ trustedProxyCommands)
  | _ => none

/-- What `reuse_signature` writes. -/
def reuseBytes (crates : Crates) (conn : Connection) (hops : List Endpoint)
    (pins : List KnownHost) (trustedProxyCommands : List String)
    (firstHopProxy : Option ProxyConfig) : List UInt8 :=
  crates.writeDigest (dialSignature crates conn) ++
    (pinsCode (pinsOf pins (conn.hostname, conn.port)) ++
    ((hops.map (pinsOf pins)).flatMap pinsCode ++
    (optionCode boolCode (commandApproval crates trustedProxyCommands conn.proxy) ++
    optionCode boolCode (commandApproval crates trustedProxyCommands firstHopProxy))))

def reuseSignature (crates : Crates) (conn : Connection) (hops : List Endpoint)
    (pins : List KnownHost) (trustedProxyCommands : List String)
    (firstHopProxy : Option ProxyConfig) : crates.Digest :=
  crates.finish (reuseBytes crates conn hops pins trustedProxyCommands firstHopProxy)

/-! ### The plan -/

/-- The hops of a route, resolved, and the proxies they end up with. -/
structure ConnectionResolver where
  connections : List Connection
  proxies : List (Uuid × ProxyConfig)

structure DialPlan (Digest : Type) where
  connId : Uuid
  authConn : Connection
  resolver : Option ConnectionResolver
  signature : Digest
  /-- Every address the dial touches, the target's last. -/
  endpoints : List Endpoint

inductive PlanError
  | notFound
  | other (text : String)

def defaultUsername : String := "root"

def resolveHop (vault : VaultStore) (groups : List Group) (identities : List Identity)
    (allHosts : List Connection) (resolver : ConnectionResolver) (jid : Uuid) :
    ConnectionResolver :=
  match allHosts.find? fun conn => conn.id = jid with
  | none => resolver
  | some row =>
    let hop := vault.applyEffective groups identities row
    { connections := resolver.connections ++ [hop]
      proxies :=
        match hop.proxy with
        | some proxy => (jid, proxy) :: resolver.proxies
        | none => resolver.proxies }

def listed (connections : Except String (List Connection)) (id : Uuid) :
    Except PlanError Connection :=
  match connections with
  | .error text => .error (.other text)
  | .ok connections =>
    match connections.find? fun conn => conn.id = id with
    | some conn => .ok conn
    | none => .error .notFound

/-- The host a plan authenticates as, and the hosts its hops are looked up among. -/
def authConnOf (vault : VaultStore) (groups : List Group) (identities : List Identity)
    (row : Connection) : Connection × List Connection :=
  let conn := vault.applyEffective groups identities row
  let named := { conn with username := some (conn.username.getD defaultUsername) }
  if named.jumpChain.isEmpty then (named, [])
  else
    let allHosts := orEmpty vault.listConnections
    ({ named with jumpChain := expandedJumpChain named.id named.jumpChain allHosts }, allHosts)

/-- The address of each hop that is found, along the route. -/
def hopsOf (allHosts : List Connection) (route : List Uuid) : List Endpoint :=
  (route.filterMap fun id => allHosts.find? fun conn => conn.id = id).map fun conn =>
    (conn.hostname, conn.port)

def firstHopProxy (route : List Uuid) (resolver : Option ConnectionResolver) :
    Option ProxyConfig :=
  route.head?.bind fun first => resolver.bind fun resolver => resolver.proxies.lookup first

def resolveDialPlan (crates : Crates) (vault : VaultStore) (id : Uuid) :
    Except PlanError (DialPlan crates.Digest) := do
  let row ← listed vault.listMcpConnections id
  let groups := orEmpty vault.listGroups
  let identities := orEmpty vault.listIdentities
  let (authConn, allHosts) := authConnOf vault groups identities row
  let resolver :=
    if row.jumpChain.isEmpty then none
    else some (authConn.jumpChain.foldl (resolveHop vault groups identities allHosts) ⟨[], []⟩)
  let hops := hopsOf allHosts authConn.jumpChain
  pure
    { connId := authConn.id
      authConn := authConn
      resolver := resolver
      signature := reuseSignature crates authConn hops (orEmpty vault.listKnownHosts)
        (orEmpty vault.listTrustedProxyCommands) (firstHopProxy authConn.jumpChain resolver)
      endpoints := hops ++ [(authConn.hostname, authConn.port)] }

end Oryxis.Routes

/-
This file holds the entities a vault stores and a sync session carries.

Each entity keeps the columns that some operation of the store or of the sync
engine reads: its id and its `updated_at` stamp, the references other entities
are found by, the columns the audit log quotes, the pin a known host stands for.
The columns nothing here looks at travel together in `rest`.

A `Row` is a stored entity together with its secret columns, which are not part
of the entity: they are written by their own setters and leave the device only
when its owner shares passwords.
-/

namespace Oryxis

abbrev Uuid := Nat

/-- A `DateTime<Utc>`, in nanoseconds from an arbitrary origin. -/
abbrev Stamp := Int

inductive EntityType where
  | connection
  | sshKey
  | identity
  | group
  | snippet
  | knownHost
  | proxyIdentity
  | cloudProfile
  | portForwardRule
  | sessionGroup
  | loginScript
  deriving DecidableEq, Repr

/-- What the sync protocol calls an entity: its type and its id. -/
abbrev EntityKey := EntityType × Uuid

/-! ### The models -/

inductive ProxyType where
  | socks5
  | socks4
  | http
  | command (line : String)
  deriving DecidableEq, Repr

structure ProxyConfig where
  proxyType : ProxyType
  host : String
  port : Nat
  username : Option String
  deriving DecidableEq, Repr

structure TelnetOptions where
  tls : Bool
  tlsInsecure : Bool
  deriving DecidableEq, Repr

structure EnvVar where
  key : String
  value : String
  deriving DecidableEq, Repr

structure ScriptVar where
  name : String
  value : String
  deriving DecidableEq, Repr

def TelnetOptions.isDefault (options : TelnetOptions) : Bool :=
  decide (options = { tls := false, tlsInsecure := false })

structure Connection where
  id : Uuid
  label : String
  hostname : String
  port : Nat
  groupId : Option Uuid
  identityId : Option Uuid
  proxyIdentityId : Option Uuid
  loginScriptId : Option Uuid
  loginScriptVars : List ScriptVar
  proxy : Option ProxyConfig
  telnet : Option TelnetOptions
  lastUsed : Option Stamp
  updatedAt : Stamp
  rest : String
  deriving DecidableEq, Repr

structure SshKey where
  id : Uuid
  updatedAt : Stamp
  rest : String
  deriving DecidableEq, Repr

structure Identity where
  id : Uuid
  updatedAt : Stamp
  rest : String
  deriving DecidableEq, Repr

structure ProxyIdentity where
  id : Uuid
  label : String
  proxyType : ProxyType
  host : String
  port : Nat
  updatedAt : Stamp
  rest : String
  deriving DecidableEq, Repr

structure GroupDefaults where
  username : Option String
  identityId : Option Uuid
  proxyIdentityId : Option Uuid
  port : Option Nat
  envVars : List EnvVar
  terminalTheme : Option String
  startupSnippetId : Option Uuid
  deriving DecidableEq, Repr

def GroupDefaults.default : GroupDefaults where
  username := none
  identityId := none
  proxyIdentityId := none
  port := none
  envVars := []
  terminalTheme := none
  startupSnippetId := none

def GroupDefaults.isEmpty (defaults : GroupDefaults) : Bool :=
  decide (defaults = GroupDefaults.default)

structure Group where
  id : Uuid
  label : String
  parentId : Option Uuid
  defaults : Option GroupDefaults
  updatedAt : Stamp
  rest : String
  deriving DecidableEq, Repr

structure Snippet where
  id : Uuid
  updatedAt : Stamp
  rest : String
  deriving DecidableEq, Repr

/-- A host key the user has accepted: the pin is the triple of hostname, port and key type,
and what it pins is the fingerprint. -/
structure KnownHost where
  id : Uuid
  hostname : String
  port : Nat
  keyType : String
  fingerprint : String
  updatedAt : Stamp
  rest : String
  deriving DecidableEq, Repr

structure CloudProfile where
  id : Uuid
  updatedAt : Stamp
  rest : String
  deriving DecidableEq, Repr

structure PortForwardRule where
  id : Uuid
  label : String
  hostId : Uuid
  targetHost : String
  autoStart : Bool
  updatedAt : Stamp
  rest : String
  deriving DecidableEq, Repr

structure SessionGroup where
  id : Uuid
  updatedAt : Stamp
  rest : String
  deriving DecidableEq, Repr

structure LoginScript where
  id : Uuid
  name : String
  updatedAt : Stamp
  rest : String
  deriving DecidableEq, Repr

/-! ### Stored rows -/

structure ConnectionSecrets where
  password : Option String
  proxyPassword : Option String
  totpSecret : Option String
  targetPassword : Option String
  deriving DecidableEq, Repr

/-- A row of one of the synced tables: the entity, and the secret columns next to it. -/
inductive Row where
  | connection (connection : Connection) (secrets : ConnectionSecrets)
  | sshKey (key : SshKey) (privateKey : Option String)
  | identity (identity : Identity) (password : Option String)
  | group (group : Group)
  | snippet (snippet : Snippet)
  | knownHost (pin : KnownHost)
  | proxyIdentity (proxyIdentity : ProxyIdentity) (password : Option String)
  | cloudProfile (profile : CloudProfile) (secret : Option String)
  | portForwardRule (rule : PortForwardRule)
  | sessionGroup (sessionGroup : SessionGroup)
  | loginScript (script : LoginScript)
  deriving DecidableEq, Repr

namespace Row

def entityType : Row → EntityType
  | .connection .. => .connection
  | .sshKey .. => .sshKey
  | .identity .. => .identity
  | .group .. => .group
  | .snippet .. => .snippet
  | .knownHost .. => .knownHost
  | .proxyIdentity .. => .proxyIdentity
  | .cloudProfile .. => .cloudProfile
  | .portForwardRule .. => .portForwardRule
  | .sessionGroup .. => .sessionGroup
  | .loginScript .. => .loginScript

def id : Row → Uuid
  | .connection entity _ => entity.id
  | .sshKey entity _ => entity.id
  | .identity entity _ => entity.id
  | .group entity => entity.id
  | .snippet entity => entity.id
  | .knownHost entity => entity.id
  | .proxyIdentity entity _ => entity.id
  | .cloudProfile entity _ => entity.id
  | .portForwardRule entity => entity.id
  | .sessionGroup entity => entity.id
  | .loginScript entity => entity.id

def updatedAt : Row → Stamp
  | .connection entity _ => entity.updatedAt
  | .sshKey entity _ => entity.updatedAt
  | .identity entity _ => entity.updatedAt
  | .group entity => entity.updatedAt
  | .snippet entity => entity.updatedAt
  | .knownHost entity => entity.updatedAt
  | .proxyIdentity entity _ => entity.updatedAt
  | .cloudProfile entity _ => entity.updatedAt
  | .portForwardRule entity => entity.updatedAt
  | .sessionGroup entity => entity.updatedAt
  | .loginScript entity => entity.updatedAt

/-- The primary key of the row's table, with the table itself. -/
def key (row : Row) : EntityKey := (row.entityType, row.id)

/-- `UNIQUE(hostname, port)` on `known_hosts`, the one unique column of the synced tables
besides the ids. -/
def endpoint : Row → Option (String × Nat)
  | .knownHost pin => some (pin.hostname, pin.port)
  | _ => none

end Row

end Oryxis

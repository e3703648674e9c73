/-
This file is `apply_records`, the one place where a peer's records reach the vault.

The stamps the vault holds are read once, before the loop, and every record is
gated by its own header against them: a record that is not strictly newer is
skipped. What passes is a deletion, which runs the delete of the entity the header
names, or a payload, which is unsealed, deserialised at the header's type and
saved under the id and the stamp it carries itself. A store that refuses a record
is logged and the loop goes on. After the loop, and only if some record was a
group, the parent cycles of the stored tree are broken.

`now` is the clock: its reading in the turn of each record.
-/

import Oryxis.Vault.GroupCycles
import Oryxis.Vault.Writes
import Oryxis.Sync.Records

namespace Oryxis

/-- What the engine logs about a record it did not carry out. -/
inductive SyncWarning where
  | deleteFailed (key : EntityKey) (error : VaultError)
  | decryptFailed (key : EntityKey)
  | badPayload (key : EntityKey)
  | saveFailed (key : EntityKey) (error : VaultError)
  | keyChangeRefused (pin : KnownHost)

/-- The state of the loop: the vault, this device's own recency per host once it has been read,
and what was logged. -/
structure ApplyState where
  vault : VaultStore
  localRecency : Option (List (Uuid × Option Stamp))
  warnings : List SyncWarning

namespace ApplyState

def warn (state : ApplyState) (warning : SyncWarning) : ApplyState :=
  { state with warnings := state.warnings ++ [warning] }

def setVault (state : ApplyState) (vault : VaultStore) : ApplyState :=
  { state with vault := vault }

/-- A store operation that may be refused: the refusal is logged. -/
def store (state : ApplyState) (onError : VaultError → SyncWarning)
    (outcome : Except VaultError VaultStore) : ApplyState :=
  match outcome with
  | .ok vault => state.setVault vault
  | .error error => state.warn (onError error)

end ApplyState

/-! ### The audit log -/

def VaultStore.addLog (vault : VaultStore) (entry : LogEntry) : VaultStore :=
  { vault with logs := vault.logs ++ [entry] }

/-- A line for a peer's write that decides where a connection goes or what runs to get there. -/
def VaultStore.logRouteOverwrite (vault : VaultStore) (label hostname message : String) :
    VaultStore :=
  vault.addLog ⟨label, hostname, .syncApplied, message⟩

/-- A proxy in the audit log: its kind and its endpoint, never its command line. -/
def ProxyType.summary (proxyType : ProxyType) (host : String) (port : Nat) : String :=
  match proxyType with
  | .command _ => "command proxy"
  | .socks5 => s!"SOCKS5 {host}:{port}"
  | .socks4 => s!"SOCKS4 {host}:{port}"
  | .http => s!"HTTP {host}:{port}"

def Connection.route (host : Connection) : String :=
  match host.proxy with
  | some proxy =>
    s!"{host.hostname}:{host.port} via {proxy.proxyType.summary proxy.host proxy.port}"
  | none => s!"{host.hostname}:{host.port}"

/-! ### One record -/

/-- The argument a wire secret is saved with: a value sets it, an absent but cleared one clears
it, and an absent one keeps what is stored. -/
def secretArg (secret : WireSecret) : Option String :=
  match secret.value with
  | some value => some value
  | none => if secret.cleared then some "" else none

/-- The pin a peer's pin would silently replace: one of the same hostname, port and key type
with another fingerprint. -/
def VaultStore.replacesLocalPin (vault : VaultStore) (pin : KnownHost) : Bool :=
  match vault.listKnownHosts.find? fun other =>
      other.hostname = pin.hostname && other.port = pin.port && other.keyType = pin.keyType with
  | some other => decide (other.fingerprint ≠ pin.fingerprint)
  | none => false

/-- The recency of this device's hosts, as the first connection record of a batch reads it. -/
def VaultStore.readRecency (vault : VaultStore) : List (Uuid × Option Stamp) :=
  vault.listConnections.map fun host => (host.id, host.lastUsed)

def recencyOf (recency : List (Uuid × Option Stamp)) (id : Uuid) : Option Stamp :=
  ((recency.find? fun entry => entry.1 = id).map Prod.snd).join

def VaultStore.logIf (vault : VaultStore) (condition : Bool) (label hostname message : String) :
    VaultStore :=
  if condition then vault.logRouteOverwrite label hostname message else vault

/-- A setter after a connection was saved: it runs where the wire carries a value or a clear. -/
def VaultStore.setWireSecret (setter : VaultStore → Uuid → Option String → VaultStore)
    (vault : VaultStore) (id : Uuid) (secret : WireSecret) : VaultStore :=
  match secretArg secret with
  | some value => setter vault id (some value)
  | none => vault

/-- The setters run whether or not the save was refused. -/
def VaultStore.setWireSecrets (vault : VaultStore) (id : Uuid)
    (proxyPassword totpSecret targetPassword : WireSecret) : VaultStore :=
  let vault := setWireSecret setProxyPassword vault id proxyPassword
  let vault := setWireSecret setConnectionTotpSecret vault id totpSecret
  setWireSecret setConnectionTargetPassword vault id targetPassword

/-- The save of a deserialised payload. `key` is the header's; what is saved is named by the
payload. -/
def applyPayload (state : ApplyState) (key : EntityKey) (overwritesLocal : Bool) (now : Stamp) :
    SyncPayload → ApplyState
  | .connection host password proxyPassword totpSecret targetPassword =>
    let recency := state.localRecency.getD state.vault.readRecency
    let host := { host.stripLocalTrust with lastUsed := recencyOf recency host.id }
    let vault := state.vault.logIf overwritesLocal host.label host.hostname
      s!"host updated by a sync peer: {host.route}"
    let saved := { state with vault := vault, localRecency := some recency }.store
      (.saveFailed key) (vault.saveConnection host (secretArg password))
    saved.setVault (saved.vault.setWireSecrets host.id proxyPassword totpSecret targetPassword)
  | .sshKey entity privateKey =>
    state.setVault (state.vault.saveKey entity (privateKey.filter fun pem => pem != ""))
  | .identity entity password =>
    state.setVault (state.vault.saveIdentity entity (secretArg password))
  | .proxyIdentity entity password =>
    let vault := state.vault.logIf overwritesLocal entity.label entity.host
      s!"proxy updated by a sync peer: {entity.proxyType.summary entity.host entity.port}"
    state.setVault (vault.saveProxyIdentity entity (secretArg password))
  | .group entity =>
    let vault := state.vault.logIf
      (overwritesLocal && entity.defaults.any fun defaults => !defaults.isEmpty) entity.label ""
      "group defaults updated by a sync peer"
    state.setVault (vault.saveGroup entity)
  | .sessionGroup entity => state.setVault (state.vault.saveSessionGroup entity)
  | .snippet entity => state.setVault (state.vault.saveSnippet entity)
  | .knownHost pin =>
    let pinned := s!"{pin.hostname} port {pin.port} ({pin.keyType})"
    if state.vault.replacesLocalPin pin then
      (state.setVault (state.vault.logRouteOverwrite pin.hostname pin.hostname
        s!"known host key change from a sync peer REFUSED: {pinned}; the next connect asks")).warn
        (.keyChangeRefused pin)
    else
      let vault := state.vault.logIf overwritesLocal pin.hostname pin.hostname
        s!"known host key updated by a sync peer: {pinned}"
      state.setVault (vault.saveKnownHost pin now)
  | .cloudProfile entity secret =>
    state.setVault (state.vault.saveCloudProfile entity (secretArg secret))
  | .portForwardRule entity =>
    let vault := state.vault.logIf (overwritesLocal && entity.autoStart) entity.label
      entity.targetHost "auto-starting port forward updated by a sync peer"
    state.setVault (vault.savePortForwardRule entity)
  | .loginScript entity =>
    let vault := state.vault.logIf overwritesLocal entity.name ""
      "login script updated by a sync peer"
    state.setVault (vault.saveLoginScript entity)

variable {Bytes : Type}

/-- One turn of the loop. -/
def applyRecord (codec : Codec Bytes) (secret : SharedSecret)
    (localStamps : EntityKey → Option Stamp) (now : Stamp) (state : ApplyState)
    (record : SyncRecord Bytes) : ApplyState :=
  if (localStamps record.key).any fun localStamp => record.updatedAt ≤ localStamp then state
  else if record.isDeleted then
    state.store (.deleteFailed record.key) (state.vault.deleteEntity record.key now)
  else
    match codec.decrypt secret record.payload with
    | none => state.warn (.decryptFailed record.key)
    | some plain =>
      match codec.fromSlice record.entityType plain with
      | none => state.warn (.badPayload record.key)
      | some payload => applyPayload state record.key (localStamps record.key).isSome now payload

/-- The loop; `turn` counts the records, and the clock is read in each turn. -/
def applyLoop (codec : Codec Bytes) (secret : SharedSecret)
    (localStamps : EntityKey → Option Stamp) (now : Nat → Stamp) :
    Nat → ApplyState → List (SyncRecord Bytes) → ApplyState
  | _, state, [] => state
  | turn, state, record :: records =>
    applyLoop codec secret localStamps now (turn + 1)
      (applyRecord codec secret localStamps (now turn) state record) records

/-! ### The batch -/

/-- A group is saved again without its parent; its stamp is kept. -/
def VaultStore.detachGroup (groups : List Group) (vault : VaultStore) (id : Uuid) : VaultStore :=
  match Group.withId groups id with
  | none => vault
  | some group => vault.saveGroup { group with parentId := none }

/-- Detach the groups that close a parent cycle. -/
def VaultStore.breakGroupCycles (vault : VaultStore) : VaultStore :=
  let groups := vault.listGroups
  (Group.cycleBreakers groups).foldl (detachGroup groups) vault

/-- The vault as the loop leaves it, before cycles are broken. -/
def appliedState (codec : Codec Bytes) (secret : SharedSecret) (now : Nat → Stamp)
    (vault : VaultStore) (records : List (SyncRecord Bytes)) : ApplyState :=
  applyLoop codec secret vault.localStamps now 0 ⟨vault, none, []⟩ records

/-- The vault and the log of the engine after a batch. -/
def applyRecords (codec : Codec Bytes) (vault : VaultStore) (records : List (SyncRecord Bytes))
    (sharedSecret : Option SharedSecret) (now : Nat → Stamp) :
    Except SyncError (VaultStore × List SyncWarning) :=
  match sharedSecret with
  | none => .error (.crypto "peer has no shared secret; refusing to accept plaintext")
  | some secret =>
    let applied := appliedState codec secret now vault records
    .ok (if records.any fun record => record.entityType = .group
      then applied.vault.breakGroupCycles else applied.vault, applied.warnings)

end Oryxis

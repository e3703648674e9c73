/-
This file is how the server for AI clients comes to pin a host key.

A dial takes the pins of its vault once, refuses every key that is not among them and
records the refusal. A call of `accept_host_key` then goes from step to step: it picks
the vault whose dial refused the key, looks the refusal up, reads the pins and saves a
new one, with the vault locked against this process between the last two. Anything
else that happens to a vault, by the app or by another server, happens between steps.
-/

import Oryxis.Library.Machine
import Oryxis.Library.Text
import Oryxis.Vault.Effects

namespace Oryxis.Mcp

open Library

/-- What a server offers: the four values of a pin. -/
structure HostKey where
  host : String
  port : Nat
  keyType : String
  fingerprint : String

/-- A key a check turned away, and the key type and fingerprint of the pin it disagreed with. -/
structure Refusal where
  offered : HostKey
  old : Option (String × String)

def Refusal.key (refusal : Refusal) : String × Nat × String :=
  (refusal.offered.host, refusal.offered.port, refusal.offered.keyType)

/-! ### The log of refusals -/

abbrev RefusalLog := Table Refusal.key Table.noIndex

namespace RefusalLog

def record (log : RefusalLog) (refusal : Refusal) : RefusalLog := log.insertOrReplace refusal

def get (log : RefusalLog) (host : String) (port : Nat) (keyType : String) : Option Refusal :=
  log.get? (host, port, keyType)

def remove (log : RefusalLog) (host : String) (port : Nat) (keyType : String) : RefusalLog :=
  log.deleteWhere fun refusal => refusal.key = (host, port, keyType)

def clearEndpoints (log : RefusalLog) (endpoints : List (String × Nat)) : RefusalLog :=
  log.deleteWhere fun refusal => endpoints.any fun endpoint =>
    refusal.offered.host = endpoint.1 && refusal.offered.port = endpoint.2

end RefusalLog

/-! ### The check of a dial -/

inductive HostKeyStatus where
  | known
  | unknown
  | changed (oldFingerprint : String)
  deriving DecidableEq, Repr

def pinsAt (pins : List KnownHost) (host : String) (port : Nat) : List KnownHost :=
  pins.filter fun pin => pin.hostname = host && pin.port = port

/-- What the check answers, and what it records. -/
def hostKeyCheck (pinned : List KnownHost) (offered : HostKey) : HostKeyStatus × Option Refusal :=
  let atEndpoint := pinsAt pinned offered.host offered.port
  match atEndpoint.find? fun pin => pin.keyType = offered.keyType with
  | some existing =>
    if existing.fingerprint ≠ offered.fingerprint then
      (.changed existing.fingerprint, some ⟨offered, some (existing.keyType, existing.fingerprint)⟩)
    else (.known, none)
  | none =>
    match atEndpoint.head? with
    | some other =>
      (.changed other.fingerprint, some ⟨offered, some (other.keyType, other.fingerprint)⟩)
    | none => (.unknown, some ⟨offered, none⟩)

/-! ### The call -/

/-- The parameters of a call, as they came. -/
structure AcceptParams where
  host : Option String
  keyType : Option String
  fingerprint : Option String
  port : Option Nat
  vault : Option String

inductive AcceptError where
  | missing (parameter : String)
  | port
  | noVault (slug : String)
  | notRefused (host : String) (port : Nat) (keyType : String)
  | severalVaults (slugs : List String)
  | otherFingerprint (offered : String)
  | changed (pinned : String)
  | otherKeyType (keyType fingerprint : String)
  | pinnedMeanwhile (fingerprint : String)

/-- The key is pinned, and whether it was before the call. -/
structure Accepted where
  alreadyPinned : Bool
  key : HostKey
  vault : String

def strParam (name : String) (value : Option String) : Except AcceptError String :=
  match (value.map trim).filter fun text => text != "" with
  | some text => .ok text
  | none => .error (.missing name)

def portParam (value : Option Nat) : Except AcceptError Nat :=
  match value.filter fun port => 1 ≤ port && port ≤ 65535 with
  | some port => .ok port
  | none => .error .port

def AcceptParams.parse (params : AcceptParams) : Except AcceptError HostKey := do
  let host ← strParam "host" params.host
  let keyType ← strParam "key_type" params.keyType
  let fingerprint ← strParam "fingerprint" params.fingerprint
  let port ← portParam params.port
  return ⟨host, port, keyType, fingerprint⟩

/-- A vault that this process serves. -/
structure Served where
  slug : String
  enabled : Bool
  vault : VaultStore
  refusals : RefusalLog

/-- The vaults a call may reach, by their place in the registry. -/
def inScope (served : List Served) (named : Option String) : Except AcceptError (List Nat) :=
  let enabled := (List.range served.length).filter fun index =>
    (served[index]?.map Served.enabled).getD false
  match (named.map trim).filter fun slug => slug != "" with
  | none => .ok enabled
  | some slug =>
    match enabled.find? fun index => (served[index]?.map Served.slug) = some slug with
    | some index => .ok [index]
    | none => .error (.noVault slug)

def refusedIn (served : List Served) (scope : List Nat) (key : HostKey) : List Nat :=
  scope.filter fun index =>
    ((served[index]?.bind fun one => one.refusals.get key.host key.port key.keyType)).isSome

/-- The one vault whose dial refused the key. -/
def pickVault (served : List Served) (params : AcceptParams) :
    Except AcceptError (HostKey × Nat) := do
  let key ← params.parse
  let scope ← inScope served params.vault
  match refusedIn served scope key with
  | [one] => return (key, one)
  | [] => throw (.notRefused key.host key.port key.keyType)
  | several => throw (.severalVaults (several.filterMap fun index => served[index]?.map Served.slug))

/-- The first guard: a key a dial reported, value for value, and reported as unknown. -/
def checkRefusal (found : Option Refusal) (key : HostKey) : Except AcceptError Unit :=
  match found with
  | none => .error (.notRefused key.host key.port key.keyType)
  | some refusal =>
    if refusal.offered.fingerprint ≠ key.fingerprint then
      .error (.otherFingerprint refusal.offered.fingerprint)
    else
      match refusal.old with
      | some old => .error (.changed old.2)
      | none => .ok ()

/-- The second guard, over the pins of the vault: whether the key is pinned already. -/
def checkPins (pins : List KnownHost) (key : HostKey) : Except AcceptError Bool :=
  let atEndpoint := pinsAt pins key.host key.port
  match atEndpoint.find? fun pin => pin.keyType = key.keyType with
  | some existing =>
    if existing.fingerprint = key.fingerprint then .ok true
    else .error (.pinnedMeanwhile existing.fingerprint)
  | none =>
    match atEndpoint.find? fun pin => pin.keyType ≠ key.keyType with
    | some other => .error (.otherKeyType other.keyType other.fingerprint)
    | none => .ok false

/-- The pin a call saves. -/
def HostKey.pin (key : HostKey) (id : Uuid) (now : Stamp) : KnownHost where
  id := id
  hostname := key.host
  port := key.port
  keyType := key.keyType
  fingerprint := key.fingerprint
  updatedAt := now
  rest := ""

/-! ### The process -/

/-- Where a call stands. -/
inductive Call where
  | picking (params : AcceptParams)
  | looking (key : HostKey) (vault : Nat)
  | reading (key : HostKey) (vault : Nat)
  | saving (key : HostKey) (vault : Nat)
  | forgetting (key : HostKey) (vault : Nat) (alreadyPinned : Bool)
  | answered (result : Except AcceptError Accepted)

/-- A dial with the pins it took. -/
structure Dial where
  vault : Nat
  pinned : List KnownHost

/-- A pin that a call added, with the vault before and after. -/
structure Added where
  vault : Nat
  key : HostKey
  before : VaultStore
  after : VaultStore

/-- The process, what its dials recorded as unknown and what its calls added. -/
structure Process where
  served : List Served
  dials : List Dial
  calls : List Call
  unknown : List (Nat × HostKey)
  added : List Added

inductive Action where
  | dial (vault : Nat)
  | clear (vault : Nat) (endpoints : List (String × Nat))
  | offer (dial : Nat) (key : HostKey)
  | call (params : AcceptParams)
  | proceed (call : Nat) (id : Uuid) (now : Stamp)
  /-- What the app or another process leaves in a vault. -/
  | others (vault : Nat) (enabled : Bool) (after : VaultStore)

/-- A call that holds the lock of a vault. -/
def Call.holds (vault : Nat) : Call → Bool
  | .saving _ held => held = vault
  | _ => false

namespace Process

/-- Whether this process may lock a vault: no call holds it. -/
def free (process : Process) (vault : Nat) : Bool := process.calls.all fun call => !call.holds vault

def setServed (process : Process) (vault : Nat) (served : Served) : Process :=
  { process with served := process.served.set vault served }

def setCall (process : Process) (index : Nat) (call : Call) : Process :=
  { process with calls := process.calls.set index call }

def dial (process : Process) (vault : Nat) : Option Process :=
  if process.free vault then
    (process.served[vault]?).map fun served =>
      { process with dials := process.dials ++ [⟨vault, served.vault.listKnownHosts⟩] }
  else none

/-- The check of a dial is asked about a key. -/
def offer (process : Process) (dial : Dial) (key : HostKey) : Option Process :=
  (process.served[dial.vault]?).map fun served =>
    match hostKeyCheck dial.pinned key with
    | (_, none) => process
    | (status, some refusal) =>
      { process.setServed dial.vault { served with refusals := served.refusals.record refusal } with
        unknown := process.unknown ++ if status = .unknown then [(dial.vault, key)] else [] }

/-- The pin is saved, under an id that no row has. -/
def save (process : Process) (index : Nat) (key : HostKey) (vault : Nat) (id : Uuid) (now : Stamp) :
    Option Process :=
  (process.served[vault]?).bind fun served =>
    if (served.vault.rowOf (.knownHost, id)).isSome then none
    else
      let after := served.vault.saveKnownHost (key.pin id now) now
      some { (process.setServed vault { served with vault := after }).setCall index
          (.forgetting key vault false) with
        added := process.added ++ [⟨vault, key, served.vault, after⟩] }

/-- The next step of a call. -/
def proceed (process : Process) (index : Nat) (id : Uuid) (now : Stamp) : Call → Option Process
  | .picking params =>
    match pickVault process.served params with
    | .error error => some (process.setCall index (.answered (.error error)))
    | .ok (key, vault) => some (process.setCall index (.looking key vault))
  | .looking key vault =>
    (process.served[vault]?).map fun served =>
      match checkRefusal (served.refusals.get key.host key.port key.keyType) key with
      | .error error => process.setCall index (.answered (.error error))
      | .ok () => process.setCall index (.reading key vault)
  | .reading key vault =>
    if process.free vault then
      (process.served[vault]?).map fun served =>
        match checkPins served.vault.listKnownHosts key with
        | .error error => process.setCall index (.answered (.error error))
        | .ok true => process.setCall index (.forgetting key vault true)
        | .ok false => process.setCall index (.saving key vault)
    else none
  | .saving key vault => process.save index key vault id now
  | .forgetting key vault alreadyPinned =>
    (process.served[vault]?).map fun served =>
      (process.setServed vault
        { served with refusals := served.refusals.remove key.host key.port key.keyType }).setCall
          index (.answered (.ok ⟨alreadyPinned, key, served.slug⟩))
  | .answered _ => none

def step (process : Process) : Action → Option Process
  | .dial vault => process.dial vault
  | .clear vault endpoints =>
    (process.served[vault]?).map fun served =>
      process.setServed vault { served with refusals := served.refusals.clearEndpoints endpoints }
  | .offer dial key => (process.dials[dial]?).bind fun dial => process.offer dial key
  | .call params => some { process with calls := process.calls ++ [.picking params] }
  | .proceed index id now => (process.calls[index]?).bind (process.proceed index id now)
  | .others vault enabled after =>
    (process.served[vault]?).map fun served =>
      process.setServed vault { served with enabled := enabled, vault := after }

def machine : Machine Process Action := ⟨step⟩

/-- A process that has dialled nothing. -/
def start (vaults : List (String × Bool × VaultStore)) : Process where
  served := vaults.map fun vault => ⟨vault.1, vault.2.1, vault.2.2, Table.empty⟩
  dials := []
  calls := []
  unknown := []
  added := []

end Process

end Oryxis.Mcp

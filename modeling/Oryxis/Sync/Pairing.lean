/-
This file is the host's side of pairing: the hosted code and the handshakes that
ask for it.

The code lives in one slot that hosting fills, that cancelling empties, and that
every handshake takes the lock of several times: to read its attempts, to read the
code, to count a failure, to empty it once a peer is stored. Between two of these
the handshake holds no lock, so each is an action of its own here, and anything
may fall in between. The clock moves only where an action says so.

Each hosting is numbered by `serial`, since the code itself, six digits, does not
tell two hostings apart. The serial and the list of what happened are not part of
the program. They are what the results about it speak of.
-/

import Mathlib.Algebra.Ring.Int.Defs
import Mathlib.Algebra.Ring.Nat
import Oryxis.Library.Machine
import Oryxis.Vault.Store

namespace Oryxis

open Library

/-- The row pairing leaves behind: an active peer, never synced with. -/
def VaultStore.saveSyncPeer (vault : VaultStore) (peerId : Uuid) (deviceName publicKey : String)
    (sharedSecret : Option String) (pairedAt : Stamp) : VaultStore :=
  { vault with
    syncPeers := vault.syncPeers.insertOrReplace
      ⟨peerId, deviceName, publicKey, sharedSecret, pairedAt, true, none⟩ }

/-! ### The hosted code -/

structure SourceAttempts where
  source : String
  count : Nat

/-- The hosted code; `serial` numbers the hostings. -/
structure HostingPairing where
  code : String
  expiresAt : Nat
  attemptsBySource : Table SourceAttempts.source Table.noIndex
  serial : Nat

def maxPairingAttempts : Nat := 3

def maxPairingSources : Nat := 1024

/-- `PAIRING_CODE_TTL`, in the ticks of `Instant`. -/
def pairingCodeTtl : Nat := 300 * 10 ^ 9

namespace HostingPairing

def attempts (pairing : HostingPairing) (source : String) : Nat :=
  ((pairing.attemptsBySource.get? source).map SourceAttempts.count).getD 0

/-- Whether the code may still be paired with. -/
def isLive (pairing : HostingPairing) (clock : Nat) : Bool := decide (clock < pairing.expiresAt)

/-- The attempts a failure is counted into: none are left once too many sources are tracked. -/
def tracked (pairing : HostingPairing) : Table SourceAttempts.source Table.noIndex :=
  if maxPairingSources ≤ pairing.attemptsBySource.rows.length then Table.empty
  else pairing.attemptsBySource

def recordFailure (pairing : HostingPairing) (source : String) : HostingPairing × Bool :=
  let earlier := ((pairing.tracked.get? source).map SourceAttempts.count).getD 0
  let counter := min (earlier + 1) (2 ^ 32 - 1)
  ({ pairing with attemptsBySource := pairing.tracked.insertOrReplace ⟨source, counter⟩ },
    decide (maxPairingAttempts ≤ counter))

end HostingPairing

/-! ### The handshake -/

/-- A `PairingRequest`, with the address it came from where the transport knows one. -/
structure PairingRequest where
  deviceId : Uuid
  deviceName : String
  publicKey : String
  pairingCode : String
  x25519Pub : List UInt8
  peerEndpoint : Option (String × Nat)

def sourceKeyForQuic (ip : String) : String := "quic:" ++ ip

def sourceKeyForRelay (joiner : Uuid) : String := "relay:" ++ toString joiner

def PairingRequest.source (request : PairingRequest) : String :=
  match request.peerEndpoint with
  | some (ip, _) => sourceKeyForQuic ip
  | none => sourceKeyForRelay request.deviceId

/-- The primitives of the handshake: verifying a signed challenge under a public key, and the
shared secret of the host's ephemeral secret and the joiner's public half. -/
structure PairingCrypto where
  verifyEd25519 : String → String → String → Bool
  x25519Dh : String → List UInt8 → String

/-- Where a handshake stands between two of its steps. -/
inductive HandshakePhase where
  | idle
  | received (request : PairingRequest)
  | belowCap (request : PairingRequest)
  | wrongCode (request : PairingRequest)
  | codeMatched (request : PairingRequest) (serial : Nat)
  | challenged (request : PairingRequest) (serial : Nat) (challenge : String)
  | badResponse (request : PairingRequest)
  | verified (request : PairingRequest) (serial : Nat) (sharedSecret : String)
  | stored (request : PairingRequest) (serial : Nat)
  | cleared (request : PairingRequest) (serial : Nat)
  | endpointFailed (request : PairingRequest) (serial : Nat)
  | rejected (reason : String)
  | failed (error : String)

/-- What happened to the hosted codes, as far as the results need it. -/
inductive PairingEvent where
  | hosted (serial expiresAt : Nat)
  /-- Cancelled, or hosted over. -/
  | withdrawn (serial : Nat)
  | stored (serial : Nat) (deviceId : Uuid) (clock : Nat)
  /-- A finished handshake emptied the slot, which held `removed`. -/
  | cleared (serial : Nat) (removed : Option Nat)
  deriving DecidableEq, Repr

/-- How the write of the peer ends: in full, before the row, or after it. -/
inductive PeerWrite where
  | saved
  | saveFailed
  | endpointFailed

/-- The state of a device that may host a code; `past` is newest first. -/
structure PairingHost where
  clock : Nat
  hosting : Option HostingPairing
  hostings : Nat
  handshakes : Nat → HandshakePhase
  vault : VaultStore
  past : List PairingEvent

inductive PairingAction where
  | startHosting (code : String)
  | cancelHosting
  | elapse (ticks : Nat)
  | receive (joiner : Nat) (request : PairingRequest)
  | checkCap (joiner : Nat)
  | checkCode (joiner : Nat)
  | countFailure (joiner : Nat)
  | challenge (joiner : Nat) (challenge : String) (pairedElsewhere : Bool)
  | respond (joiner : Nat) (signed hostSecret : String)
  | storePeer (joiner : Nat) (pairedAt : Stamp) (outcome : PeerWrite)
  | clearCode (joiner : Nat)
  | loseConnection (joiner : Nat)

namespace PairingHost

def fresh (vault : VaultStore) : PairingHost := ⟨0, none, 0, fun _ => .idle, vault, []⟩

def setPhase (host : PairingHost) (joiner : Nat) (phase : HandshakePhase) : PairingHost :=
  { host with handshakes := Function.update host.handshakes joiner phase }

/-- The past, with the hosted code taken out of the slot by its owner. -/
def withdraw (host : PairingHost) : List PairingEvent :=
  match host.hosting with
  | none => host.past
  | some pairing => .withdrawn pairing.serial :: host.past

def startHostingPairing (host : PairingHost) (code : String) : PairingHost :=
  { host with
    hosting := some ⟨code, host.clock + pairingCodeTtl, Table.empty, host.hostings⟩
    hostings := host.hostings + 1
    past := .hosted host.hostings (host.clock + pairingCodeTtl) :: host.withdraw }

def cancelHostingPairing (host : PairingHost) : PairingHost :=
  { host with hosting := none, past := host.withdraw }

def checkCap (host : PairingHost) (joiner : Nat) (request : PairingRequest) : PairingHost :=
  let attempts := (host.hosting.map fun pairing => pairing.attempts request.source).getD 0
  host.setPhase joiner
    (if maxPairingAttempts ≤ attempts then .rejected "Rate limited" else .belowCap request)

def checkCode (host : PairingHost) (joiner : Nat) (request : PairingRequest) : PairingHost :=
  host.setPhase joiner <|
    match host.hosting.filter fun pairing => pairing.isLive host.clock with
    | none => .rejected "Not hosting pairing (or code expired)"
    | some pairing =>
      if pairing.code = request.pairingCode then .codeMatched request pairing.serial
      else .wrongCode request

/-- Count a failure against its source, on whatever code is hosted by now. -/
def countFailure (host : PairingHost) (joiner : Nat) (request : PairingRequest)
    (reason : String) : PairingHost :=
  match host.hosting with
  | none => host.setPhase joiner (.rejected reason)
  | some pairing =>
    let counted := pairing.recordFailure request.source
    { host.setPhase joiner (.rejected (if counted.2 then "Rate limited" else reason)) with
      hosting := some counted.1 }

def respond (crypto : PairingCrypto) (host : PairingHost) (joiner : Nat)
    (request : PairingRequest) (serial : Nat) (challenge signed hostSecret : String) :
    PairingHost :=
  host.setPhase joiner <|
    if crypto.verifyEd25519 request.publicKey challenge signed then
      if request.x25519Pub.length = 32 then
        .verified request serial (crypto.x25519Dh hostSecret request.x25519Pub)
      else .failed "Joiner x25519_pub must be 32 bytes"
    else .badResponse request

/-- Store the joiner as a peer. The endpoint is a write of its own, for a joiner that has one. -/
def storePeer (host : PairingHost) (joiner : Nat) (request : PairingRequest) (serial : Nat)
    (sharedSecret : String) (pairedAt : Stamp) (outcome : PeerWrite) : Option PairingHost :=
  let stored := { host with
    vault := host.vault.saveSyncPeer request.deviceId request.deviceName request.publicKey
      (some sharedSecret) pairedAt
    past := .stored serial request.deviceId host.clock :: host.past }
  match outcome with
  | .saveFailed => some (host.setPhase joiner (.failed "save_sync_peer"))
  | .saved => some (stored.setPhase joiner (.stored request serial))
  | .endpointFailed =>
    if request.peerEndpoint.isSome then
      some (stored.setPhase joiner (.endpointFailed request serial))
    else none

/-- Empty the slot, whatever it holds. -/
def clearCode (host : PairingHost) (joiner : Nat) (request : PairingRequest) (serial : Nat) :
    PairingHost :=
  { host.setPhase joiner (.cleared request serial) with
    hosting := none
    past := .cleared serial (host.hosting.map HostingPairing.serial) :: host.past }

def step (crypto : PairingCrypto) (host : PairingHost) : PairingAction → Option PairingHost
  | .startHosting code => some (host.startHostingPairing code)
  | .cancelHosting => some host.cancelHostingPairing
  | .elapse ticks => some { host with clock := host.clock + ticks }
  | .receive joiner request =>
    match host.handshakes joiner with
    | .idle => some (host.setPhase joiner (.received request))
    | _ => none
  | .checkCap joiner =>
    match host.handshakes joiner with
    | .received request => some (host.checkCap joiner request)
    | _ => none
  | .checkCode joiner =>
    match host.handshakes joiner with
    | .belowCap request => some (host.checkCode joiner request)
    | _ => none
  | .countFailure joiner =>
    match host.handshakes joiner with
    | .wrongCode request => some (host.countFailure joiner request "Wrong pairing code")
    | .badResponse request => some (host.countFailure joiner request "Bad challenge response")
    | _ => none
  | .challenge joiner challenge pairedElsewhere =>
    match host.handshakes joiner with
    | .codeMatched request serial =>
      if pairedElsewhere then
        some (host.setPhase joiner
          (.rejected "This device is already paired with another vault here"))
      else some (host.setPhase joiner (.challenged request serial challenge))
    | _ => none
  | .respond joiner signed hostSecret =>
    match host.handshakes joiner with
    | .challenged request serial challenge =>
      some (respond crypto host joiner request serial challenge signed hostSecret)
    | _ => none
  | .storePeer joiner pairedAt outcome =>
    match host.handshakes joiner with
    | .verified request serial sharedSecret =>
      host.storePeer joiner request serial sharedSecret pairedAt outcome
    | _ => none
  | .clearCode joiner =>
    match host.handshakes joiner with
    | .stored request serial => some (host.clearCode joiner request serial)
    | _ => none
  | .loseConnection joiner =>
    -- Nothing else of the wire is awaited before the peer is stored.
    match host.handshakes joiner with
    | .codeMatched .. | .challenged .. => some (host.setPhase joiner (.failed "Transport"))
    | _ => none

end PairingHost

/-- The host as a machine. -/
def pairingMachine (crypto : PairingCrypto) : Machine PairingHost PairingAction :=
  ⟨PairingHost.step crypto⟩

end Oryxis

/-
This file is the side of a device that is called: its listeners, the sessions they open and
what a session makes of each frame.

A connection that comes in directly is read once, then handed to the vault its first frame
names; frames that come through the relay are sorted by sender into the sessions of the
vault they are addressed to. Either way a session starts with a handshake, and what it
waits for next is its phase. Sessions run side by side, over vaults that their owners
change at any time, so each of the program's steps between two awaits is an action here,
and anything may fall in between.
-/

import Oryxis.Sync.Apply
import Oryxis.Sync.Pairing

namespace Oryxis

open Library

/-! ### Frames -/

def protocolVersion : Nat := 11

inductive SyncMessage (Bytes : Type) where
  | hello (deviceId : Uuid) (version : Nat) (authSignature : String)
  | helloAck (deviceId : Uuid) (version : Nat) (authSignature : String)
  | pairingRequest (deviceId : Uuid) (deviceName publicKey pairingCode : String)
      (listenPort : Nat) (x25519Pub : List UInt8)
  | pairingChallenge (challenge : String)
  | pairingResponse (signedChallenge : String)
  | pairingAccepted (deviceId : Uuid) (deviceName publicKey : String) (x25519Pub : List UInt8)
  | pairingRejected (reason : String)
  | manifestRequest
  | manifest (entries : List ManifestEntry)
  | deltaRequest (needed : List EntityKey)
  | deltaResponse (records : List (SyncRecord Bytes))
  | deltaPush (records : List (SyncRecord Bytes))
  | deltaAck (accepted : List Uuid)
  | ping
  | pong
  | bye
  | relayHello (deviceId : Uuid) (version : Nat) (clientNonce : String)
  | relayHelloAck (deviceId : Uuid) (version : Nat) (serverNonce serverSignature : String)
  | relayAuth (clientSignature : String)

/-- The primitives of both handshakes. The transcript is over the client, the server and their
nonces. -/
structure SessionCrypto extends PairingCrypto where
  signEd25519 : String → String → String
  relayHandshakeTranscript : Uuid → Uuid → String → String → String

/-! ### Sessions -/

/-- What carries a session: a connection, with the exporter of its TLS session, or the relay. -/
inductive SessionTransport where
  | quic (exporter remoteIp : String)
  | relayServer (peerId : Uuid)

/-- What a session has come to. -/
inductive SessionPhase where
  | unopened
  /-- Accepted on the listener, for no vault yet. -/
  | accepted
  | opened
  | pairing
  | awaitsRelayAuth (peerPubkey transcript : String)
  | authenticated (peerId : Uuid)
  | syncing (peerId : Uuid) (sharedSecret : Option SharedSecret)
  | ended
  deriving DecidableEq, Repr

variable {Bytes : Type}

structure InboundSession (Bytes : Type) where
  transport : SessionTransport
  route : Nat
  phase : SessionPhase
  inbox : List (SyncMessage Bytes)
  /-- The frames sent that are no part of a pairing, oldest first. -/
  outbox : List (SyncMessage Bytes)

namespace InboundSession

def start (transport : SessionTransport) (route : Nat) (phase : SessionPhase)
    (inbox : List (SyncMessage Bytes)) : InboundSession Bytes :=
  ⟨transport, route, phase, inbox, []⟩

def enter (session : InboundSession Bytes) (phase : SessionPhase) : InboundSession Bytes :=
  { session with phase := phase }

def send (session : InboundSession Bytes) (frame : SyncMessage Bytes) : InboundSession Bytes :=
  { session with outbox := session.outbox ++ [frame] }

end InboundSession

/-- One vault's engine: its identity, and the vault with the code it hosts. -/
structure Route where
  deviceId : Uuid
  signingKey : String
  host : PairingHost

/-- A device: its engines, the ones attached to the shared listener, the sessions, and for each
engine the relay sessions its inbox is sorted into, oldest first. -/
structure InboundDevice (Bytes : Type) where
  routes : Nat → Route
  attached : List Nat
  sessions : Nat → InboundSession Bytes
  opened : Nat
  relaySessions : Nat → List (Uuid × Nat)

/-- What a step reads beside the frame: the nonce and the ephemeral secret it draws, and the
clock. -/
structure ServeReading where
  serverNonce : String
  hostSecret : String
  now : Stamp
  turns : Nat → Stamp

inductive InboundAction (Bytes : Type) where
  | attach (route : Nat)
  | detach (route : Nat)
  /-- The owner leaves a vault so. -/
  | edit (route : Nat) (vault : VaultStore)
  /-- A step of a route's hosting or of one of its pairing handshakes that reads no frame. -/
  | pairing (route : Nat) (action : PairingAction)
  | accept (exporter remoteIp : String)
  | quicFrame (session : Nat) (frame : SyncMessage Bytes)
  | relayFrame (route : Nat) (sender : Uuid) (frame : SyncMessage Bytes)
  | pickRoute (session : Nat)
  | serve (session : Nat) (reading : ServeReading)
  | begin (session : Nat)
  | close (session : Nat)
  /-- The task of an ended relay session leaves the map. -/
  | leaveMap (session : Nat)

/-! ### What a route answers from -/

/-- The stored key of a peer that is active. -/
def VaultStore.activePeerPubkey (vault : VaultStore) (peerId : Uuid) : Option String :=
  (vault.syncPeers.rows.find? fun peer => peer.peerId = peerId && peer.isActive).map
    SyncPeer.publicKey

def VaultStore.peerSharedSecret (vault : VaultStore) (peerId : Uuid) : Option SharedSecret :=
  (vault.syncPeers.get? peerId).bind SyncPeer.sharedSecret

namespace Route

def vault (route : Route) : VaultStore := route.host.vault

def setVault (route : Route) (vault : VaultStore) : Route :=
  { route with host := { route.host with vault := vault } }

/-- The code a route hosts by now. -/
def liveCode (route : Route) : Option String :=
  (route.host.hosting.filter fun pairing => pairing.isLive route.host.clock).map
    HostingPairing.code

end Route

/-- The route a first frame names, out of the attached ones. -/
def pickRoute (routes : Nat → Route) (first : Nat) (attached : List Nat) :
    SyncMessage Bytes → Nat
  | .hello deviceId _ _ =>
    (attached.find? fun route => ((routes route).vault.activePeerPubkey deviceId).isSome).getD first
  | .pairingRequest _ _ _ pairingCode _ _ =>
    ((attached.find? fun route => (routes route).liveCode = some pairingCode).or
      (attached.find? fun route => (routes route).liveCode.isSome)).getD first
  | _ => first

namespace InboundDevice

/-! ### One frame -/

def setSession (device : InboundDevice Bytes) (number : Nat) (session : InboundSession Bytes) :
    InboundDevice Bytes :=
  { device with sessions := Function.update device.sessions number session }

def setRoute (device : InboundDevice Bytes) (number : Nat) (route : Route) : InboundDevice Bytes :=
  { device with routes := Function.update device.routes number route }

/-- A step of a route's pairing, if it can be taken. -/
def stepPairing (crypto : SessionCrypto) (device : InboundDevice Bytes) (number : Nat)
    (action : PairingAction) : Option (InboundDevice Bytes) :=
  ((device.routes number).host.step crypto.toPairingCrypto action).map fun host =>
    device.setRoute number { device.routes number with host := host }

/-- A pairing request on a session: its handshake is numbered as the session. -/
def startPairing (crypto : SessionCrypto) (device : InboundDevice Bytes) (number : Nat)
    (session : InboundSession Bytes) (request : PairingRequest) : Option (InboundDevice Bytes) :=
  (device.setSession number (session.enter .pairing)).stepPairing crypto session.route
    (.receive number request)

/-- The first frame of a session, for the route it is served by. -/
def serveFirst (crypto : SessionCrypto) (reading : ServeReading) (device : InboundDevice Bytes)
    (number : Nat) (session : InboundSession Bytes) (frame : SyncMessage Bytes) :
    Option (InboundDevice Bytes) :=
  let route := device.routes session.route
  match session.transport, frame with
  | .quic exporter _, .hello peerId version authSignature =>
    some <| device.setSession number <|
      if version ≠ protocolVersion then session.enter .ended
      else
        match route.vault.activePeerPubkey peerId with
        | none => (session.send .bye).enter .ended
        | some peerPubkey =>
          if crypto.verifyEd25519 peerPubkey exporter authSignature then
            (session.send (.helloAck route.deviceId protocolVersion
              (crypto.signEd25519 route.signingKey exporter))).enter (.authenticated peerId)
          else (session.send .bye).enter .ended
  | .quic _ remoteIp, .pairingRequest deviceId deviceName publicKey code listenPort x25519Pub =>
    device.startPairing crypto number session
      ⟨deviceId, deviceName, publicKey, code, x25519Pub, some (remoteIp, listenPort)⟩
  | .relayServer _, .pairingRequest deviceId deviceName publicKey code _ x25519Pub =>
    device.startPairing crypto number session
      ⟨deviceId, deviceName, publicKey, code, x25519Pub, none⟩
  | .relayServer senderId, .relayHello deviceId version clientNonce =>
    some <| device.setSession number <|
      if deviceId ≠ senderId then session.enter .ended
      else if version ≠ protocolVersion then session.enter .ended
      else
        match route.vault.activePeerPubkey senderId with
        | none => session.enter .ended
        | some peerPubkey =>
          let transcript := crypto.relayHandshakeTranscript senderId route.deviceId clientNonce
            reading.serverNonce
          (session.send (.relayHelloAck route.deviceId protocolVersion reading.serverNonce
            (crypto.signEd25519 route.signingKey transcript))).enter
            (.awaitsRelayAuth peerPubkey transcript)
  | _, _ => some (device.setSession number (session.enter .ended))

/-- The answer to the relay handshake. -/
def serveRelayAuth (crypto : SessionCrypto) (device : InboundDevice Bytes) (number : Nat)
    (session : InboundSession Bytes) (peerPubkey transcript : String) (frame : SyncMessage Bytes) :
    InboundDevice Bytes :=
  device.setSession number <|
    match session.transport, frame with
    | .relayServer senderId, .relayAuth clientSignature =>
      if crypto.verifyEd25519 peerPubkey transcript clientSignature then
        session.enter (.authenticated senderId)
      else session.enter .ended
    | _, _ => session.enter .ended

/-- One turn of `handle_sync_session`. -/
def serveSync (codec : Codec Bytes) (reading : ServeReading) (device : InboundDevice Bytes)
    (number : Nat) (session : InboundSession Bytes) (sharedSecret : Option SharedSecret)
    (frame : SyncMessage Bytes) : InboundDevice Bytes :=
  let route := device.routes session.route
  match frame with
  | .manifestRequest =>
    device.setSession number (session.send (.manifest route.vault.buildManifest))
  | .deltaRequest needed =>
    device.setSession number <|
      match route.vault.collectRecords codec needed sharedSecret reading.now with
      | .error _ => session.enter .ended
      | .ok records => session.send (.deltaResponse records)
  | .deltaPush records =>
    match applyRecords codec route.vault records sharedSecret reading.turns with
    | .error _ => device.setSession number (session.enter .ended)
    | .ok (vault, _) =>
      let accepted := records.map SyncRecord.entityId
      (device.setSession number (session.send (.deltaAck accepted))).setRoute session.route
        (route.setVault vault)
  | .ping => device.setSession number (session.send .pong)
  | _ => device.setSession number (session.enter .ended)

/-- A frame on a session that pairs: the answer to the challenge, or the last one. -/
def servePairing (crypto : SessionCrypto) (reading : ServeReading) (device : InboundDevice Bytes)
    (number : Nat) (session : InboundSession Bytes) (frame : SyncMessage Bytes) :
    Option (InboundDevice Bytes) :=
  match (device.routes session.route).host.handshakes number with
  | .challenged .. =>
    match frame with
    | .pairingResponse signedChallenge =>
      (device.setSession number session).stepPairing crypto session.route
        (.respond number signedChallenge reading.hostSecret)
    | _ =>
      (device.setSession number (session.enter .ended)).stepPairing crypto session.route
        (.loseConnection number)
  | .cleared .. | .rejected _ => some (device.setSession number (session.enter .ended))
  | _ => none

/-- The next frame of a session. -/
def serve (crypto : SessionCrypto) (codec : Codec Bytes) (device : InboundDevice Bytes)
    (number : Nat) (reading : ServeReading) : Option (InboundDevice Bytes) :=
  let session := device.sessions number
  match session.inbox with
  | [] => none
  | frame :: rest =>
    let session := { session with inbox := rest }
    match session.phase with
    | .opened => device.serveFirst crypto reading number session frame
    | .awaitsRelayAuth peerPubkey transcript =>
      some (device.serveRelayAuth crypto number session peerPubkey transcript frame)
    | .syncing _ sharedSecret =>
      some (device.serveSync codec reading number session sharedSecret frame)
    | .pairing => device.servePairing crypto reading number session frame
    | _ => none

/-! ### The listeners -/

def maxRelaySessions : Nat := 64

/-- `BoundedSessionMap::insert`: the oldest entry goes where the map is full. -/
def insertSession (sessions : List (Uuid × Nat)) (sender : Uuid) (number : Nat) :
    List (Uuid × Nat) :=
  (if sessions.any fun entry => entry.1 = sender then
      sessions.filter fun entry => entry.1 ≠ sender
    else if maxRelaySessions ≤ sessions.length then sessions.tail
    else sessions) ++ [(sender, number)]

def openSession (device : InboundDevice Bytes) (session : InboundSession Bytes) :
    InboundDevice Bytes :=
  { device.setSession device.opened session with opened := device.opened + 1 }

/-- A frame that waits for its session. -/
def deliver (device : InboundDevice Bytes) (number : Nat) (frame : SyncMessage Bytes) :
    InboundDevice Bytes :=
  let session := device.sessions number
  device.setSession number { session with inbox := session.inbox ++ [frame] }

/-- A frame from the relay: to the session of its sender, or to a new one. -/
def relayFrame (device : InboundDevice Bytes) (route : Nat) (sender : Uuid)
    (frame : SyncMessage Bytes) : InboundDevice Bytes :=
  let spawned := { device.openSession (.start (.relayServer sender) route .opened [frame]) with
    relaySessions := Function.update device.relaySessions route
      (insertSession (device.relaySessions route) sender device.opened) }
  match (device.relaySessions route).find? fun entry => entry.1 = sender with
  | none => spawned
  | some (_, number) =>
    if (device.sessions number).phase = .ended then spawned else device.deliver number frame

/-- The steps of a pairing that its owner takes, or that read no frame. -/
def ownStep : PairingAction → Bool
  | .receive .. | .respond .. | .loseConnection .. => false
  | _ => true

def step (crypto : SessionCrypto) (codec : Codec Bytes) (device : InboundDevice Bytes) :
    InboundAction Bytes → Option (InboundDevice Bytes)
  | .attach route =>
    if device.attached.any fun other =>
        (device.routes other).deviceId = (device.routes route).deviceId then none
    else some { device with attached := device.attached ++ [route] }
  | .detach route =>
    some { device with
      attached := device.attached.filter fun other =>
        (device.routes other).deviceId ≠ (device.routes route).deviceId }
  | .edit route vault => some (device.setRoute route ((device.routes route).setVault vault))
  | .pairing route action =>
    if ownStep action then device.stepPairing crypto route action else none
  | .accept exporter remoteIp =>
    some (device.openSession (.start (.quic exporter remoteIp) 0 .accepted []))
  | .quicFrame number frame =>
    match (device.sessions number).transport with
    | .quic .. => some (device.deliver number frame)
    | .relayServer _ => none
  | .relayFrame route sender frame => some (device.relayFrame route sender frame)
  | .pickRoute number =>
    let session := device.sessions number
    match session.phase, session.inbox, device.attached with
    | .accepted, _ :: _, [] => some (device.setSession number (session.enter .ended))
    | .accepted, first :: _, attached :: others =>
      some (device.setSession number
        { session with
          route := pickRoute device.routes attached (attached :: others) first
          phase := .opened })
    | _, _, _ => none
  | .serve number reading => device.serve crypto codec number reading
  | .begin number =>
    let session := device.sessions number
    match session.phase with
    | .authenticated peerId =>
      some (device.setSession number (session.enter
        (.syncing peerId ((device.routes session.route).vault.peerSharedSecret peerId))))
    | _ => none
  | .close number =>
    let session := device.sessions number
    match session.phase with
    | .unopened | .ended => none
    | .pairing =>
      let closed := device.setSession number (session.enter .ended)
      some ((closed.stepPairing crypto session.route (.loseConnection number)).getD closed)
    | _ => some (device.setSession number (session.enter .ended))
  | .leaveMap number =>
    let session := device.sessions number
    match session.phase, session.transport with
    | .ended, .relayServer sender =>
      some { device with
        relaySessions := Function.update device.relaySessions session.route
          ((device.relaySessions session.route).filter fun entry => entry.1 ≠ sender) }
    | _, _ => none

/-- A device with its identities and their vaults, before any session. -/
def fresh (identities : Nat → Uuid × String) (vaults : Nat → VaultStore) :
    InboundDevice Bytes where
  routes number :=
    ⟨(identities number).1, (identities number).2, PairingHost.fresh (vaults number)⟩
  attached := []
  sessions _ := .start (.relayServer 0) 0 .unopened []
  opened := 0
  relaySessions _ := []

end InboundDevice

/-- The called side as a machine. -/
def inboundMachine (crypto : SessionCrypto) (codec : Codec Bytes) :
    Machine (InboundDevice Bytes) (InboundAction Bytes) :=
  ⟨InboundDevice.step crypto codec⟩

end Oryxis

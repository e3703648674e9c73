/-
This file proves that no frame reaches a vault before its sender is authenticated.

A session's phase vouches for its past: once it names a peer, some earlier frame of that
very session carried a signature of that session's challenge which verified under the key
the served vault stored for that peer, who was active. What a session can do in any other
phase is answer the handshake. So a step that changes what a vault holds, or that sends
something out of it, is one of an authenticated session, whatever the frames and whoever
else is connected. What a pairing writes is a peer, and only after the hosted code and a
signed challenge.
-/

import Oryxis.Sync.Inbound
import Oryxis.Sync.SingleCode

namespace Oryxis

open Function Library

variable {Bytes : Type}

/-! ### The property -/

/-- A frame that carries something out of a vault, or answers for a write to it. -/
def SyncMessage.discloses : SyncMessage Bytes → Bool
  | .manifest _ | .deltaResponse _ | .deltaAck _ => true
  | _ => false

/-- The peer a session is authenticated as. -/
def SessionPhase.peer : SessionPhase → Option Uuid
  | .authenticated peerId | .syncing peerId _ => some peerId
  | _ => none

/-- The vaults differ in their list of peers at most. -/
def VaultStore.SameButPeers (vault other : VaultStore) : Prop :=
  { vault with syncPeers := other.syncPeers } = other

namespace InboundDevice

section

variable (crypto : SessionCrypto) (codec : Codec Bytes) (start : InboundDevice Bytes)
  (past : List (InboundAction Bytes))

/-- A step of the past, in the state it was taken in. -/
structure Taken (action : InboundAction Bytes) (earlier : List (InboundAction Bytes))
    (device : InboundDevice Bytes) : Prop where
  split : ∃ later, past = earlier ++ action :: later
  ran : (inboundMachine crypto codec).run start earlier = some device

/-- The session answered a hello over the relay with a nonce of its own, for a peer that was active
in the vault it serves. -/
inductive RelayGreeted (number route : Nat) (peerId : Uuid) (peerPubkey transcript : String) :
    Prop where
  | intro {reading earlier device clientNonce rest outbox}
      (taken : Taken crypto codec start past (.serve number reading) earlier device)
      (session : device.sessions number = ⟨.relayServer peerId, route, .opened,
        .relayHello peerId protocolVersion clientNonce :: rest, outbox⟩)
      (stored : (device.routes route).vault.activePeerPubkey peerId = some peerPubkey)
      (signed : transcript = crypto.relayHandshakeTranscript peerId (device.routes route).deviceId
        clientNonce reading.serverNonce)

/-- A signature of this session's challenge verified under the key that the vault it serves had
stored for the peer, who was active. -/
inductive HelloVerified (number route : Nat) (peerId : Uuid) : Prop where
  | quic {reading earlier device exporter remoteIp signature rest outbox peerPubkey}
      (taken : Taken crypto codec start past (.serve number reading) earlier device)
      (session : device.sessions number = ⟨.quic exporter remoteIp, route, .opened,
        .hello peerId protocolVersion signature :: rest, outbox⟩)
      (stored : (device.routes route).vault.activePeerPubkey peerId = some peerPubkey)
      (verified : crypto.verifyEd25519 peerPubkey exporter signature = true)
  | relay {reading earlier device signature rest outbox peerPubkey transcript}
      (taken : Taken crypto codec start past (.serve number reading) earlier device)
      (greeted : RelayGreeted crypto codec start earlier number route peerId peerPubkey transcript)
      (session : device.sessions number = ⟨.relayServer peerId, route,
        .awaitsRelayAuth peerPubkey transcript, .relayAuth signature :: rest, outbox⟩)
      (verified : crypto.verifyEd25519 peerPubkey transcript signature = true)

/-- The handshake of a session presented the code that its route hosted. -/
inductive CodePresented (number route : Nat) : Prop where
  | intro {earlier device request pairing}
      (taken : Taken crypto codec start past (.pairing route (.checkCode number)) earlier device)
      (phase : (device.routes route).host.handshakes number = .belowCap request)
      (hosted : (device.routes route).host.hosting = some pairing)
      (live : pairing.isLive (device.routes route).host.clock = true)
      (code : pairing.code = request.pairingCode)

/-- The handshake of a session presented the code, and signed the challenge under its key. -/
inductive PairingVerified (number route : Nat) : Prop where
  | intro {reading earlier device request serial challenge signed rest}
      (code : CodePresented crypto codec start past number route)
      (taken : Taken crypto codec start past (.serve number reading) earlier device)
      (phase : (device.routes route).host.handshakes number =
        .challenged request serial challenge)
      (frame : (device.sessions number).inbox = .pairingResponse signed :: rest)
      (verified : crypto.verifyEd25519 request.publicKey challenge signed = true)

end

/-- No frame is acted on before the peer is authenticated. -/
structure ActsAfterHello (crypto : SessionCrypto) (codec : Codec Bytes)
    (start : InboundDevice Bytes) : Prop where
  /-- A session that takes sync frames was authenticated. -/
  handlers : ∀ past device number peerId sharedSecret,
    (inboundMachine crypto codec).run start past = some device →
    (device.sessions number).phase = .syncing peerId sharedSecret →
    HelloVerified crypto codec start past number (device.sessions number).route peerId
  /-- A step that changes a vault is its owner's, or an authenticated session's on that vault, or
  it stores a peer that paired. -/
  changes : ∀ past device action next route,
    (inboundMachine crypto codec).run start past = some device →
    device.step crypto codec action = some next →
    (next.routes route).vault ≠ (device.routes route).vault →
    (∃ vault, action = .edit route vault) ∨
      (∃ number reading peerId, action = .serve number reading ∧
        (device.sessions number).route = route ∧
        HelloVerified crypto codec start past number route peerId) ∨
      ((device.routes route).vault.SameButPeers (next.routes route).vault ∧
        ∃ number, PairingVerified crypto codec start past number route)
  /-- What is sent out of a vault goes to an authenticated session. -/
  sends : ∀ past device number frame,
    (inboundMachine crypto codec).run start past = some device →
    frame ∈ (device.sessions number).outbox → frame.discloses = true →
    ∃ peerId,
      HelloVerified crypto codec start past number (device.sessions number).route peerId
  /-- Frames that authenticate nobody leave the vaults as they were, and are sent no record. -/
  unauthenticated : ∀ past device,
    (inboundMachine crypto codec).run start past = some device →
    (∀ route vault, .edit route vault ∉ past) →
    (∀ number route peerId, ¬ HelloVerified crypto codec start past number route peerId) →
    (∀ route, (start.routes route).vault.SameButPeers (device.routes route).vault) ∧
      (∀ number, ∀ frame ∈ (device.sessions number).outbox, frame.discloses = false) ∧
      ((∀ number route, ¬ PairingVerified crypto codec start past number route) →
        ∀ route, (device.routes route).vault = (start.routes route).vault)

/-! ### The past only grows -/

section

variable {crypto : SessionCrypto} {codec : Codec Bytes} {start : InboundDevice Bytes}
  {past : List (InboundAction Bytes)}

theorem Taken.later {action : InboundAction Bytes} {earlier : List (InboundAction Bytes)}
    {device : InboundDevice Bytes} (taken : Taken crypto codec start past action earlier device)
    (newest : InboundAction Bytes) :
    Taken crypto codec start (past ++ [newest]) action earlier device := by
  obtain ⟨⟨later, rfl⟩, ran⟩ := taken
  exact ⟨⟨later ++ [newest], by simp⟩, ran⟩

theorem taken_now {device : InboundDevice Bytes} (action : InboundAction Bytes)
    (ran : (inboundMachine crypto codec).run start past = some device) :
    Taken crypto codec start (past ++ [action]) action past device :=
  ⟨⟨[], rfl⟩, ran⟩

variable {number route : Nat}

variable {peerId : Uuid}

theorem RelayGreeted.later {peerPubkey transcript : String}
    (greeted : RelayGreeted crypto codec start past number route peerId peerPubkey transcript)
    (newest : InboundAction Bytes) :
    RelayGreeted crypto codec start (past ++ [newest]) number route peerId peerPubkey
      transcript := by
  cases greeted with
  | intro taken session stored signed => exact .intro (taken.later newest) session stored signed

theorem HelloVerified.later (hello : HelloVerified crypto codec start past number route peerId)
    (newest : InboundAction Bytes) :
    HelloVerified crypto codec start (past ++ [newest]) number route peerId := by
  cases hello with
  | quic taken session stored verified => exact .quic (taken.later newest) session stored verified
  | relay taken greeted session verified =>
    exact .relay (taken.later newest) greeted session verified

theorem CodePresented.later (presented : CodePresented crypto codec start past number route)
    (newest : InboundAction Bytes) :
    CodePresented crypto codec start (past ++ [newest]) number route := by
  cases presented with
  | intro taken phase hosted live code =>
    exact .intro (taken.later newest) phase hosted live code

theorem PairingVerified.later (paired : PairingVerified crypto codec start past number route)
    (newest : InboundAction Bytes) :
    PairingVerified crypto codec start (past ++ [newest]) number route := by
  cases paired with
  | intro code taken phase frame verified =>
    exact .intro (code.later newest) (taken.later newest) phase frame verified

end

/-! ### What a step makes of a session -/

/-- Nothing new goes out of a vault. -/
def SendsNothing (before after : InboundSession Bytes) : Prop :=
  ∀ frame ∈ after.outbox, frame.discloses = true → frame ∈ before.outbox

/-- A phase before or after the authenticated part of a session. -/
def isPlain : SessionPhase → Bool
  | .unopened | .accepted | .opened | .pairing | .ended => true
  | _ => false

theorem peer_of_isPlain {phase : SessionPhase} (plain : isPlain phase = true) :
    phase.peer = none := by
  cases phase <;> first | rfl | cases plain

inductive SessionStep (crypto : SessionCrypto) (device next : InboundDevice Bytes)
    (action : InboundAction Bytes) (number : Nat) : Prop where
  /-- At most its inbox has changed. -/
  | same (transport : (next.sessions number).transport = (device.sessions number).transport)
      (route : (next.sessions number).route = (device.sessions number).route)
      (phase : (next.sessions number).phase = (device.sessions number).phase)
      (sent : (next.sessions number).outbox = (device.sessions number).outbox)
  | plain (phase : isPlain (next.sessions number).phase = true)
      (route : (next.sessions number).route = (device.sessions number).route ∨
        (next.sessions number).outbox = [] ∨ (device.sessions number).phase = .accepted)
      (opened : (next.sessions number).phase = .accepted → (next.sessions number).outbox = [])
      (sends : SendsNothing (device.sessions number) (next.sessions number))
  | greeted (reading : ServeReading) (peerId : Uuid) (clientNonce peerPubkey : String)
      (rest : List (SyncMessage Bytes)) (isServe : action = .serve number reading)
      (session : device.sessions number = ⟨.relayServer peerId, (device.sessions number).route,
        .opened, .relayHello peerId protocolVersion clientNonce :: rest,
        (device.sessions number).outbox⟩)
      (stored : (device.routes (device.sessions number).route).vault.activePeerPubkey peerId =
        some peerPubkey)
      (transport : (next.sessions number).transport = .relayServer peerId)
      (route : (next.sessions number).route = (device.sessions number).route)
      (phase : (next.sessions number).phase = .awaitsRelayAuth peerPubkey
        (crypto.relayHandshakeTranscript peerId
          (device.routes (device.sessions number).route).deviceId clientNonce reading.serverNonce))
      (sends : SendsNothing (device.sessions number) (next.sessions number))
  | helloed (reading : ServeReading) (exporter remoteIp signature peerPubkey : String)
      (peerId : Uuid) (rest : List (SyncMessage Bytes)) (isServe : action = .serve number reading)
      (session : device.sessions number = ⟨.quic exporter remoteIp,
        (device.sessions number).route, .opened,
        .hello peerId protocolVersion signature :: rest, (device.sessions number).outbox⟩)
      (stored : (device.routes (device.sessions number).route).vault.activePeerPubkey peerId =
        some peerPubkey)
      (verified : crypto.verifyEd25519 peerPubkey exporter signature = true)
      (route : (next.sessions number).route = (device.sessions number).route)
      (phase : (next.sessions number).phase = .authenticated peerId)
      (sends : SendsNothing (device.sessions number) (next.sessions number))
  | relayAuthed (reading : ServeReading) (peerPubkey transcript signature : String)
      (peerId : Uuid) (rest : List (SyncMessage Bytes)) (isServe : action = .serve number reading)
      (session : device.sessions number = ⟨.relayServer peerId, (device.sessions number).route,
        .awaitsRelayAuth peerPubkey transcript, .relayAuth signature :: rest,
        (device.sessions number).outbox⟩)
      (verified : crypto.verifyEd25519 peerPubkey transcript signature = true)
      (route : (next.sessions number).route = (device.sessions number).route)
      (phase : (next.sessions number).phase = .authenticated peerId)
      (sends : SendsNothing (device.sessions number) (next.sessions number))
  /-- A session that is authenticated goes on. -/
  | onward (peerId : Uuid) (before : (device.sessions number).phase.peer = some peerId)
      (route : (next.sessions number).route = (device.sessions number).route)
      (phase : (next.sessions number).phase.peer = some peerId)

section

variable {crypto : SessionCrypto} {codec : Codec Bytes} {device next : InboundDevice Bytes}
  {action : InboundAction Bytes} {acting : Nat} {after : InboundSession Bytes}

theorem sendsNothing_rfl (session : InboundSession Bytes) : SendsNothing session session :=
  fun _ member _ => member

variable {session : InboundSession Bytes} {frame : SyncMessage Bytes}

theorem sendsNothing_send {before : InboundSession Bytes} (same : session.outbox = before.outbox)
    (plain : frame.discloses = false) : SendsNothing before (session.send frame) := by
  intro sent member discloses
  rcases List.mem_append.mp member with earlier | newest
  · exact same ▸ earlier
  · rw [List.mem_singleton.mp newest, plain] at discloses
    cases discloses

theorem sessionStep_of_acting
    (updated : next.sessions = update device.sessions acting after)
    (acts : next.sessions acting = after → SessionStep crypto device next action acting)
    (number : Nat) : SessionStep crypto device next action number := by
  by_cases isActing : number = acting
  · subst isActing
    exact acts (by rw [updated, update_self])
  · have same : next.sessions number = device.sessions number := by
      rw [updated, update_of_ne isActing]
    exact .same (by rw [same]) (by rw [same]) (by rw [same]) (by rw [same])

theorem sessionStep_of_untouched (same : next.sessions = device.sessions) (number : Nat) :
    SessionStep crypto device next action number :=
  .same (by rw [same]) (by rw [same]) (by rw [same]) (by rw [same])

/-- A session that ends, or that goes over to pairing. -/
theorem sessionStep_of_plain
    (updated : next.sessions = update device.sessions acting after)
    (plain : isPlain after.phase = true) (notAccepted : after.phase ≠ .accepted)
    (route : after.route = (device.sessions acting).route)
    (sends : SendsNothing (device.sessions acting) after) (number : Nat) :
    SessionStep crypto device next action number := by
  refine sessionStep_of_acting updated (fun isAfter => ?_) number
  refine .plain (by rw [isAfter, plain]) (.inl (by rw [isAfter, route])) ?_
    (by rw [isAfter]; exact sends)
  rw [isAfter]
  exact fun accepted => absurd accepted notAccepted

variable {number : Nat}

theorem sessions_stepPairing {pairingAction : PairingAction}
    (stepped : device.stepPairing crypto number pairingAction = some next) :
    next.sessions = device.sessions := by
  obtain ⟨host, -, rfl⟩ := Option.map_eq_some_iff.mp stepped
  rfl

theorem sessionStep_startPairing {request : PairingRequest}
    (route : session.route = (device.sessions acting).route)
    (outbox : session.outbox = (device.sessions acting).outbox)
    (stepped : device.startPairing crypto acting session request = some next) (number : Nat) :
    SessionStep crypto device next action number := by
  have notAccepted : (session.enter .pairing).phase ≠ .accepted := fun impossible => by
    cases impossible
  refine sessionStep_of_plain (sessions_stepPairing stepped) rfl notAccepted route ?_ number
  intro frame member _
  exact outbox ▸ member

theorem sessionStep_ends (isAfter : next.sessions acting = session.enter .ended)
    (route : session.route = (device.sessions acting).route)
    (sends : SendsNothing (device.sessions acting) session) :
    SessionStep crypto device next action acting := by
  refine .plain (by rw [isAfter]; rfl) (.inl (by rw [isAfter]; exact route)) ?_
    (by rw [isAfter]; exact sends)
  intro accepted
  rw [isAfter] at accepted
  cases accepted

theorem sessionStep_ended
    (updated : next.sessions = update device.sessions acting (session.enter .ended))
    (route : session.route = (device.sessions acting).route)
    (sends : SendsNothing (device.sessions acting) session) (number : Nat) :
    SessionStep crypto device next action number :=
  sessionStep_of_acting updated (fun isAfter => sessionStep_ends isAfter route sends) number

variable {reading : ServeReading} {rest : List (SyncMessage Bytes)}

theorem sessionStep_serveFirst (phase : (device.sessions acting).phase = .opened)
    (inbox : (device.sessions acting).inbox = frame :: rest)
    (stepped : device.serveFirst crypto reading acting { device.sessions acting with inbox := rest }
      frame = some next) (number : Nat) :
    SessionStep crypto device next (.serve acting reading) number := by
  have quiet : SendsNothing (device.sessions acting)
      { device.sessions acting with inbox := rest } := fun _ member _ => member
  have parts : device.sessions acting = ⟨(device.sessions acting).transport,
      (device.sessions acting).route, .opened, frame :: rest,
      (device.sessions acting).outbox⟩ := by
    rw [← phase, ← inbox]
  unfold serveFirst at stepped
  simp only [] at stepped
  split at stepped
  · rename_i exporter remoteIp peerId version authSignature transport
    have updated := congrArg InboundDevice.sessions (Option.some.inj stepped.symm)
    refine sessionStep_of_acting updated (fun isAfter => ?_) number
    split at isAfter
    · exact sessionStep_ends isAfter rfl quiet
    · rename_i sameVersion
      split at isAfter
      · exact sessionStep_ends isAfter rfl (sendsNothing_send rfl rfl)
      · rename_i peerPubkey stored
        split at isAfter
        · rename_i verified
          have isVersion : version = protocolVersion := Decidable.of_not_not sameVersion
          have here : (device.sessions acting).transport = .quic exporter remoteIp := transport
          rw [isVersion, here] at parts
          exact .helloed reading exporter remoteIp authSignature peerPubkey peerId rest rfl parts
            stored verified (by rw [isAfter]; rfl) (by rw [isAfter]; rfl)
            (by rw [isAfter]; exact sendsNothing_send rfl rfl)
        · exact sessionStep_ends isAfter rfl (sendsNothing_send rfl rfl)
  · refine sessionStep_startPairing ?_ ?_ stepped number <;> rfl
  · refine sessionStep_startPairing ?_ ?_ stepped number <;> rfl
  · rename_i senderId deviceId version clientNonce transport
    have updated := congrArg InboundDevice.sessions (Option.some.inj stepped.symm)
    refine sessionStep_of_acting updated (fun isAfter => ?_) number
    split at isAfter
    · exact sessionStep_ends isAfter rfl quiet
    · rename_i sameSender
      split at isAfter
      · exact sessionStep_ends isAfter rfl quiet
      · rename_i sameVersion
        split at isAfter
        · exact sessionStep_ends isAfter rfl quiet
        · rename_i peerPubkey stored
          have isVersion : version = protocolVersion := Decidable.of_not_not sameVersion
          have isSender : deviceId = senderId := Decidable.of_not_not sameSender
          have here : (device.sessions acting).transport = .relayServer senderId := transport
          rw [isVersion, isSender, here] at parts
          exact .greeted reading senderId clientNonce peerPubkey rest rfl parts stored
            (by rw [isAfter]; exact here) (by rw [isAfter]; rfl) (by rw [isAfter]; rfl)
            (by rw [isAfter]; exact sendsNothing_send rfl rfl)
  · cases stepped
    refine sessionStep_ended ?_ ?_ quiet number <;> rfl

theorem sessionStep_serveRelayAuth {peerPubkey transcript : String}
    (phase : (device.sessions acting).phase = .awaitsRelayAuth peerPubkey transcript)
    (inbox : (device.sessions acting).inbox = frame :: rest)
    (stepped : some (device.serveRelayAuth crypto acting
      { device.sessions acting with inbox := rest } peerPubkey transcript frame) = some next)
    (number : Nat) : SessionStep crypto device next (.serve acting reading) number := by
  have quiet : SendsNothing (device.sessions acting)
      { device.sessions acting with inbox := rest } := fun _ member _ => member
  have parts : device.sessions acting = ⟨(device.sessions acting).transport,
      (device.sessions acting).route, .awaitsRelayAuth peerPubkey transcript, frame :: rest,
      (device.sessions acting).outbox⟩ := by
    rw [← phase, ← inbox]
  have updated := congrArg InboundDevice.sessions (Option.some.inj stepped.symm)
  refine sessionStep_of_acting updated (fun isAfter => ?_) number
  split at isAfter
  · rename_i senderId clientSignature transport
    split at isAfter
    · rename_i verified
      have here : (device.sessions acting).transport = .relayServer senderId := transport
      rw [here] at parts
      exact .relayAuthed reading peerPubkey transcript clientSignature senderId rest rfl parts
        verified (by rw [isAfter]; rfl) (by rw [isAfter]; rfl) (by rw [isAfter]; exact quiet)
    · exact sessionStep_ends isAfter rfl quiet
  · exact sessionStep_ends isAfter rfl quiet

theorem sessionStep_serveSync {peerId : Uuid} {sharedSecret : Option SharedSecret}
    (phase : (device.sessions acting).phase = .syncing peerId sharedSecret) (number : Nat) :
    SessionStep crypto device (device.serveSync codec reading acting
      { device.sessions acting with inbox := rest } sharedSecret frame)
      (.serve acting reading) number := by
  have quiet : SendsNothing (device.sessions acting)
      { device.sessions acting with inbox := rest } := fun _ member _ => member
  have before : (device.sessions acting).phase.peer = some peerId := by rw [phase]; rfl
  have goesOn : ∀ (next : InboundDevice Bytes) (sent : SyncMessage Bytes),
      next.sessions = update device.sessions acting
        ({ device.sessions acting with inbox := rest }.send sent) →
      SessionStep crypto device next (.serve acting reading) number := by
    intro next sent updated
    refine sessionStep_of_acting updated (fun isAfter => ?_) number
    exact .onward peerId before (by rw [isAfter]; rfl) (by rw [isAfter]; exact before)
  unfold serveSync
  simp only []
  split
  · exact goesOn _ _ rfl
  · rename_i needed
    cases collected : (device.routes (device.sessions acting).route).vault.collectRecords codec
        needed sharedSecret reading.now with
    | error error => refine sessionStep_ended ?_ ?_ quiet number <;> rfl
    | ok records => exact goesOn _ _ rfl
  · rename_i records
    split
    · refine sessionStep_ended ?_ ?_ quiet number <;> rfl
    · exact goesOn _ _ rfl
  · exact goesOn _ _ rfl
  · refine sessionStep_ended ?_ ?_ quiet number <;> rfl

theorem sessionStep_servePairing (stepped : device.servePairing crypto reading acting
      { device.sessions acting with inbox := rest } frame = some next) (number : Nat) :
    SessionStep crypto device next action number := by
  have quiet : SendsNothing (device.sessions acting)
      { device.sessions acting with inbox := rest } := fun _ member _ => member
  unfold servePairing at stepped
  split at stepped
  · split at stepped
    · refine sessionStep_of_acting (sessions_stepPairing stepped) (fun isAfter => ?_) number
      exact .same (by rw [isAfter]) (by rw [isAfter]) (by rw [isAfter]) (by rw [isAfter])
    · exact sessionStep_ended (sessions_stepPairing stepped) rfl quiet number
  · cases stepped
    refine sessionStep_ended ?_ ?_ quiet number <;> rfl
  · cases stepped
    refine sessionStep_ended ?_ ?_ quiet number <;> rfl
  · cases stepped

theorem sessionStep_serve (stepped : device.serve crypto codec acting reading = some next)
    (number : Nat) :
    SessionStep crypto device next (.serve acting reading) number := by
  unfold serve at stepped
  simp only [] at stepped
  split at stepped
  · cases stepped
  · rename_i frame rest inbox
    split at stepped
    · rename_i phase
      exact sessionStep_serveFirst phase inbox stepped number
    · rename_i peerPubkey transcript phase
      exact sessionStep_serveRelayAuth phase inbox stepped number
    · rename_i peerId sharedSecret phase
      cases stepped
      exact sessionStep_serveSync phase number
    · exact sessionStep_servePairing stepped number
    · cases stepped

theorem sessionStep_openSession (updated : next.sessions = update device.sessions acting session)
    (plain : isPlain session.phase = true) (empty : session.outbox = []) (number : Nat) :
    SessionStep crypto device next action number := by
  refine sessionStep_of_acting updated (fun isAfter => ?_) number
  refine .plain (by rw [isAfter, plain]) (.inr (.inl (by rw [isAfter, empty])))
    (fun _ => by rw [isAfter, empty]) ?_
  intro frame member
  rw [isAfter, empty] at member
  cases member

theorem sessionStep_deliver (frame : SyncMessage Bytes) (number : Nat) :
    SessionStep crypto device (device.deliver acting frame) action number := by
  refine sessionStep_of_acting rfl (fun isAfter => ?_) number
  exact .same (by rw [isAfter]) (by rw [isAfter]) (by rw [isAfter]) (by rw [isAfter])

theorem sessionStep (stepped : device.step crypto codec action = some next) (number : Nat) :
    SessionStep crypto device next action number := by
  cases action with
  | attach route =>
    simp only [step] at stepped
    split at stepped <;> cases stepped
    refine sessionStep_of_untouched ?_ number
    rfl
  | detach route =>
    cases stepped
    refine sessionStep_of_untouched ?_ number
    rfl
  | edit route vault =>
    cases stepped
    refine sessionStep_of_untouched ?_ number
    rfl
  | pairing route pairingAction =>
    simp only [step] at stepped
    split at stepped
    · exact sessionStep_of_untouched (sessions_stepPairing stepped) number
    · cases stepped
  | accept exporter remoteIp =>
    cases stepped
    exact sessionStep_openSession rfl rfl rfl number
  | quicFrame acting frame =>
    simp only [step] at stepped
    split at stepped <;> cases stepped
    exact sessionStep_deliver frame number
  | relayFrame route sender frame =>
    cases stepped
    unfold relayFrame
    simp only []
    split
    · exact sessionStep_openSession rfl rfl rfl number
    · split
      · exact sessionStep_openSession rfl rfl rfl number
      · exact sessionStep_deliver frame number
  | pickRoute acting =>
    simp only [step] at stepped
    split at stepped
    · cases stepped
      exact sessionStep_ended rfl rfl (sendsNothing_rfl _) number
    · rename_i phase inbox attached
      cases stepped
      refine sessionStep_of_acting rfl (fun isAfter => ?_) number
      refine .plain (by rw [isAfter]; rfl) (.inr (.inr phase)) ?_
        (by rw [isAfter]; exact sendsNothing_rfl _)
      intro accepted
      rw [isAfter] at accepted
      cases accepted
    · cases stepped
  | serve acting reading => exact sessionStep_serve stepped number
  | begin acting =>
    simp only [step] at stepped
    split at stepped
    · rename_i peerId phase
      cases stepped
      refine sessionStep_of_acting rfl (fun isAfter => ?_) number
      exact .onward peerId (by rw [phase]; rfl) (by rw [isAfter]; rfl) (by rw [isAfter]; rfl)
    · cases stepped
  | close acting =>
    simp only [step] at stepped
    split at stepped
    · cases stepped
    · cases stepped
    · cases stepped
      have quiet := sendsNothing_rfl (device.sessions acting)
      refine sessionStep_ended ?_ rfl quiet number
      cases lost : stepPairing crypto (device.setSession acting
          ((device.sessions acting).enter .ended)) (device.sessions acting).route
          (.loseConnection acting) with
      | none => rfl
      | some next => exact sessions_stepPairing lost
    · cases stepped
      exact sessionStep_ended rfl rfl (sendsNothing_rfl _) number
  | leaveMap acting =>
    simp only [step] at stepped
    split at stepped <;> cases stepped
    refine sessionStep_of_untouched ?_ number
    rfl

/-! ### What a step makes of the routes -/

/-- A step leaves the routes as they are, sets the vault of one, by its owner or from a session that
syncs, or is a step of a pairing; it says where those come from that let a handshake on. -/
inductive RouteStep (crypto : SessionCrypto) (device next : InboundDevice Bytes)
    (action : InboundAction Bytes) : Prop where
  | same (same : next.routes = device.routes)
  | edits (edited : Nat) (vault : VaultStore) (isEdit : action = .edit edited vault)
      (set : next.routes = update device.routes edited
        ((device.routes edited).setVault vault))
  | syncs (number : Nat) (reading : ServeReading) (peerId : Uuid) (vault : VaultStore)
      (isServe : action = .serve number reading)
      (phase : (device.sessions number).phase.peer = some peerId)
      (set : next.routes = update device.routes (device.sessions number).route
        ((device.routes (device.sessions number).route).setVault vault))
  | pairs (before : InboundDevice Bytes) (number : Nat) (pairingAction : PairingAction)
      (same : before.routes = device.routes)
      (paired : before.stepPairing crypto number pairingAction = some next)
      (checks : ∀ joiner, pairingAction = .checkCode joiner →
        action = .pairing number (.checkCode joiner))
      (responds : ∀ joiner signed hostSecret, pairingAction = .respond joiner signed hostSecret →
        ∃ reading rest, action = .serve joiner reading ∧
          (device.sessions joiner).inbox = .pairingResponse signed :: rest)

theorem routeStep_serve (stepped : device.serve crypto codec number reading = some next) :
    RouteStep crypto device next (.serve number reading) := by
  have pairs : ∀ {session : InboundSession Bytes} {route : Nat} {pairingAction : PairingAction},
      (device.setSession number session).stepPairing crypto route pairingAction = some next →
      (∀ joiner, pairingAction ≠ .checkCode joiner) →
      (∀ joiner signed hostSecret, pairingAction ≠ .respond joiner signed hostSecret) →
        RouteStep crypto device next (.serve number reading) :=
    fun {session} _ _ paired noCheck noResponse =>
      .pairs (device.setSession number session) _ _ rfl paired
        (fun joiner isCheck => absurd isCheck (noCheck joiner))
        fun joiner signed secret isResponse => absurd isResponse (noResponse joiner signed secret)
  unfold serve at stepped
  simp only [] at stepped
  split at stepped
  · cases stepped
  · rename_i frame rest inbox
    split at stepped
    · unfold serveFirst at stepped
      simp only [] at stepped
      split at stepped
      · cases stepped
        exact .same rfl
      · exact pairs stepped nofun nofun
      · exact pairs stepped nofun nofun
      · cases stepped
        exact .same rfl
      · cases stepped
        exact .same rfl
    · cases stepped
      exact .same rfl
    · rename_i peerId sharedSecret phase
      cases stepped
      unfold serveSync
      simp only []
      split
      · exact .same rfl
      · exact .same rfl
      · split
        · exact .same rfl
        · exact .syncs number reading peerId _ rfl (by rw [phase]; rfl) rfl
      · exact .same rfl
      · exact .same rfl
    · unfold servePairing at stepped
      split at stepped
      · split at stepped
        · refine .pairs (device.setSession number _) _ _ ?_ stepped nofun
            fun joiner signed hostSecret isResponse => ?_
          · rfl
          cases isResponse
          exact ⟨reading, rest, rfl, inbox⟩
        · exact pairs stepped nofun nofun
      · cases stepped
        exact .same rfl
      · cases stepped
        exact .same rfl
      · cases stepped
    · cases stepped

theorem routeStep (stepped : device.step crypto codec action = some next) :
    RouteStep crypto device next action := by
  cases action with
  | attach attached =>
    simp only [step] at stepped
    split at stepped <;> cases stepped
    exact .same rfl
  | detach attached =>
    cases stepped
    exact .same rfl
  | edit edited vault =>
    cases stepped
    exact .edits edited vault rfl rfl
  | pairing number pairingAction =>
    simp only [step] at stepped
    split at stepped
    · rename_i own
      refine .pairs device number pairingAction rfl stepped (fun joiner isCheck => ?_)
        fun joiner signed hostSecret isResponse => ?_
      · rw [isCheck]
      · rw [isResponse] at own
        cases own
    · cases stepped
  | accept exporter remoteIp =>
    cases stepped
    exact .same rfl
  | quicFrame acting frame =>
    simp only [step] at stepped
    split at stepped <;> cases stepped
    exact .same rfl
  | relayFrame number sender frame =>
    cases stepped
    unfold relayFrame
    simp only []
    split
    · exact .same rfl
    · split
      · exact .same rfl
      · exact .same rfl
  | pickRoute acting =>
    simp only [step] at stepped
    split at stepped <;> cases stepped
    · exact .same rfl
    · exact .same rfl
  | serve acting reading => exact routeStep_serve stepped
  | begin acting =>
    simp only [step] at stepped
    split at stepped <;> cases stepped
    exact .same rfl
  | close acting =>
    simp only [step] at stepped
    split at stepped
    · cases stepped
    · cases stepped
    · cases stepped
      cases lost : stepPairing crypto (device.setSession acting
          ((device.sessions acting).enter .ended)) (device.sessions acting).route
          (.loseConnection acting) with
      | none => exact .same rfl
      | some next =>
        refine .pairs (device.setSession acting _) _ _ ?_ lost (fun joiner isCheck => ?_)
          fun joiner signed secret isResponse => ?_
        · rfl
        · cases isCheck
        · cases isResponse
    · cases stepped
      exact .same rfl
  | leaveMap acting =>
    simp only [step] at stepped
    split at stepped <;> cases stepped
    exact .same rfl

/-! ### What a step makes of a vault -/

inductive VaultStep (device next : InboundDevice Bytes) (action : InboundAction Bytes)
    (route : Nat) : Prop where
  | same (same : (next.routes route).vault = (device.routes route).vault)
  | edited (vault : VaultStore) (isEdit : action = .edit route vault)
  | synced (number : Nat) (reading : ServeReading) (peerId : Uuid)
      (isServe : action = .serve number reading)
      (onRoute : (device.sessions number).route = route)
      (phase : (device.sessions number).phase.peer = some peerId)
  | paired (number : Nat) (request : PairingRequest) (serial : Nat) (sharedSecret : String)
      (phase : (device.routes route).host.handshakes number =
        .verified request serial sharedSecret)
      (peers : (device.routes route).vault.SameButPeers (next.routes route).vault)

/-- The vault of a device that hosts a code changes where a peer is stored only. -/
theorem vault_of_pairingStep {host after : PairingHost} {pairing : PairingCrypto}
    {pairingAction : PairingAction} (stepped : host.step pairing pairingAction = some after) :
    after.vault = host.vault ∨ ∃ number request serial sharedSecret,
      host.handshakes number = .verified request serial sharedSecret ∧
        host.vault.SameButPeers after.vault := by
  cases PairingHost.stepEffect pairing stepped with
  | quiet quiet => exact .inl quiet.vault
  | hosted code => exact .inl rfl
  | cancelled => exact .inl rfl
  | stored joiner request serial sharedSecret pairedAt outcome phase verified =>
    exact .inr ⟨joiner, request, serial, sharedSecret, verified, rfl⟩
  | cleared joiner request serial stored => exact .inl rfl

theorem routes_setRoute_self (device : InboundDevice Bytes) (number : Nat) (route : Route) :
    (device.setRoute number route).routes number = route := update_self ..

theorem routes_setRoute_of_ne (device : InboundDevice Bytes) {other : Nat}
    (different : other ≠ number) (route : Route) :
    (device.setRoute number route).routes other = device.routes other :=
  update_of_ne different ..

variable {before : InboundDevice Bytes}

/-- A step of a pairing, after the session it is numbered as was written. -/
theorem vaultStep_stepPairing {pairingAction : PairingAction} (same : before.routes = device.routes)
    (stepped : before.stepPairing crypto number pairingAction = some next) (route : Nat) :
    VaultStep device next action route := by
  obtain ⟨after, taken, rfl⟩ := Option.map_eq_some_iff.mp stepped
  rw [same] at taken
  by_cases isRoute : route = number
  · subst isRoute
    have here : ((before.setRoute route { before.routes route with host := after }).routes
        route).vault = after.vault := by
      rw [routes_setRoute_self]
      rfl
    rcases vault_of_pairingStep taken with unchanged | paired
    · exact .same (here.trans unchanged)
    · obtain ⟨joiner, request, serial, secret, phase, peers⟩ := paired
      exact .paired joiner request serial secret phase (by rw [here]; exact peers)
  · refine .same ?_
    rw [routes_setRoute_of_ne _ isRoute, same]

theorem vaultStep (stepped : device.step crypto codec action = some next) (route : Nat) :
    VaultStep device next action route := by
  cases routeStep stepped with
  | same same => exact .same (by rw [same])
  | edits edited vault isEdit set =>
    by_cases isRoute : route = edited
    · subst isRoute
      exact .edited vault isEdit
    · exact .same (by rw [set, update_of_ne isRoute])
  | syncs number reading peerId vault isServe phase set =>
    by_cases onRoute : route = (device.sessions number).route
    · exact .synced number reading peerId isServe onRoute.symm phase
    · exact .same (by rw [set, update_of_ne onRoute])
  | pairs before number pairingAction same paired => exact vaultStep_stepPairing same paired route

/-! ### What a step makes of a pairing -/

/-- What lets a handshake on: the code, then the signed challenge. -/
inductive AdmitStep (pairing : PairingCrypto) (host after : PairingHost)
    (pairingAction : PairingAction) (joiner : Nat) : Prop where
  | unchanged (same : after.handshakes joiner = host.handshakes joiner)
  | presented (request : PairingRequest) (hosted : HostingPairing)
      (isCheck : pairingAction = .checkCode joiner)
      (phase : host.handshakes joiner = .belowCap request) (slot : host.hosting = some hosted)
      (live : hosted.isLive host.clock = true) (code : hosted.code = request.pairingCode)
      (unverified : ∀ request serial secret,
        after.handshakes joiner ≠ .verified request serial secret)
  | answered (request : PairingRequest) (serial : Nat) (challenge signed hostSecret : String)
      (isResponse : pairingAction = .respond joiner signed hostSecret)
      (phase : host.handshakes joiner = .challenged request serial challenge)
      (verified : pairing.verifyEd25519 request.publicKey challenge signed = true)
  | onward (relies : (after.handshakes joiner).reliesOn ≠ none →
        (host.handshakes joiner).reliesOn ≠ none)
      (unverified : ∀ request serial secret,
        after.handshakes joiner ≠ .verified request serial secret)

section

variable {pairing : PairingCrypto} {host after : PairingHost} {pairingAction : PairingAction}
  {handshake : Nat} {phase : HandshakePhase}

theorem admitStep_of_acting
    (updated : after.handshakes = update host.handshakes handshake phase)
    (acts : after.handshakes handshake = phase →
      AdmitStep pairing host after pairingAction handshake) (joiner : Nat) :
    AdmitStep pairing host after pairingAction joiner := by
  by_cases isActing : joiner = handshake
  · subst isActing
    exact acts (by rw [updated, update_self])
  · exact .unchanged (by rw [updated, update_of_ne isActing])

/-- A handshake that is let go of, or goes on with what it relies on. -/
theorem admitStep_of_onward
    (updated : after.handshakes = update host.handshakes handshake phase)
    (relies : phase.reliesOn ≠ none → (host.handshakes handshake).reliesOn ≠ none)
    (unverified : ∀ request serial secret, phase ≠ .verified request serial secret)
    (joiner : Nat) : AdmitStep pairing host after pairingAction joiner :=
  admitStep_of_acting updated (fun isPhase =>
    .onward (by rw [isPhase]; exact relies) (by rw [isPhase]; exact unverified)) joiner

theorem admitStep_of_letGo
    (updated : after.handshakes = update host.handshakes handshake phase)
    (letGo : phase.reliesOn = none) (joiner : Nat) :
    AdmitStep pairing host after pairingAction joiner := by
  refine admitStep_of_onward updated (fun relies => absurd letGo relies) ?_ joiner
  rintro request serial secret rfl
  cases letGo

variable {request : PairingRequest}

theorem admitStep_checkCode (before : host.handshakes handshake = .belowCap request) (joiner : Nat) :
    AdmitStep pairing host (host.checkCode handshake request) (.checkCode handshake) joiner := by
  refine admitStep_of_acting rfl (fun isPhase => ?_) joiner
  split at isPhase
  · exact .onward (by rw [isPhase]; exact absurd rfl) (by rw [isPhase]; simp)
  · rename_i hosted live
    obtain ⟨slot, isLive⟩ := Option.filter_eq_some_iff.mp live
    split at isPhase
    · rename_i code
      exact .presented request hosted rfl before slot isLive code (by rw [isPhase]; simp)
    · exact .onward (by rw [isPhase]; exact absurd rfl) (by rw [isPhase]; simp)

theorem admitStep_respond {serial : Nat} {challenge signed hostSecret : String}
    (before : host.handshakes handshake = .challenged request serial challenge) (joiner : Nat) :
    AdmitStep pairing host
      (host.respond pairing handshake request serial challenge signed hostSecret)
      (.respond handshake signed hostSecret) joiner := by
  refine admitStep_of_acting rfl (fun isPhase => ?_) joiner
  split at isPhase
  · rename_i verified
    exact .answered request serial challenge signed hostSecret rfl before verified
  · exact .onward (by rw [isPhase]; exact absurd rfl) (by rw [isPhase]; simp)

theorem admitStep (stepped : host.step pairing pairingAction = some after) (joiner : Nat) :
    AdmitStep pairing host after pairingAction joiner := by
  cases pairingAction with
  | startHosting code =>
    cases stepped
    exact .unchanged rfl
  | cancelHosting =>
    cases stepped
    exact .unchanged rfl
  | elapse ticks =>
    cases stepped
    exact .unchanged rfl
  | receive handshake request =>
    simp only [PairingHost.step] at stepped
    split at stepped <;> cases stepped
    exact admitStep_of_letGo rfl rfl joiner
  | checkCap handshake =>
    simp only [PairingHost.step] at stepped
    split at stepped <;> cases stepped
    refine admitStep_of_letGo rfl ?_ joiner
    split <;> rfl
  | checkCode handshake =>
    simp only [PairingHost.step] at stepped
    split at stepped <;> cases stepped
    rename_i request before
    exact admitStep_checkCode before joiner
  | countFailure handshake =>
    simp only [PairingHost.step, PairingHost.countFailure] at stepped
    split at stepped <;> cases stepped <;> split <;> exact admitStep_of_letGo rfl rfl joiner
  | challenge handshake challenge pairedElsewhere =>
    simp only [PairingHost.step] at stepped
    split at stepped
    · rename_i request serial before
      split at stepped <;> cases stepped
      · exact admitStep_of_letGo rfl rfl joiner
      · refine admitStep_of_onward rfl (fun _ => ?_) (fun _ _ _ => by simp) joiner
        rw [before]
        exact Option.some_ne_none serial
    · cases stepped
  | respond handshake signed hostSecret =>
    simp only [PairingHost.step] at stepped
    split at stepped <;> cases stepped
    rename_i request serial challenge before
    exact admitStep_respond before joiner
  | storePeer handshake pairedAt outcome =>
    simp only [PairingHost.step, PairingHost.storePeer] at stepped
    split at stepped
    · split at stepped
      · cases stepped
        exact admitStep_of_letGo rfl rfl joiner
      · cases stepped
        exact admitStep_of_letGo rfl rfl joiner
      · split at stepped <;> cases stepped
        exact admitStep_of_letGo rfl rfl joiner
    · cases stepped
  | clearCode handshake =>
    simp only [PairingHost.step] at stepped
    split at stepped <;> cases stepped
    exact admitStep_of_letGo rfl rfl joiner
  | loseConnection handshake =>
    simp only [PairingHost.step] at stepped
    split at stepped <;> cases stepped <;> exact admitStep_of_letGo rfl rfl joiner

end

inductive HandshakeStep (crypto : SessionCrypto) (device next : InboundDevice Bytes)
    (action : InboundAction Bytes) (route joiner : Nat) : Prop where
  | unchanged (same : (next.routes route).host.handshakes joiner =
      (device.routes route).host.handshakes joiner)
  | presented (request : PairingRequest) (hosted : HostingPairing)
      (isCheck : action = .pairing route (.checkCode joiner))
      (phase : (device.routes route).host.handshakes joiner = .belowCap request)
      (slot : (device.routes route).host.hosting = some hosted)
      (live : hosted.isLive (device.routes route).host.clock = true)
      (code : hosted.code = request.pairingCode)
      (unverified : ∀ request serial secret,
        (next.routes route).host.handshakes joiner ≠ .verified request serial secret)
  | answered (reading : ServeReading) (request : PairingRequest) (serial : Nat)
      (challenge signed : String) (rest : List (SyncMessage Bytes))
      (isServe : action = .serve joiner reading)
      (phase : (device.routes route).host.handshakes joiner =
        .challenged request serial challenge)
      (frame : (device.sessions joiner).inbox = .pairingResponse signed :: rest)
      (verified : crypto.verifyEd25519 request.publicKey challenge signed = true)
  | onward (relies : ((next.routes route).host.handshakes joiner).reliesOn ≠ none →
        ((device.routes route).host.handshakes joiner).reliesOn ≠ none)
      (unverified : ∀ request serial secret,
        (next.routes route).host.handshakes joiner ≠ .verified request serial secret)

/-- A step of a pairing on a device: of which step it is, the two that let a handshake on say
where they come from. -/
theorem handshakeStep_stepPairing {route joiner : Nat} {pairingAction : PairingAction}
    (same : before.routes = device.routes)
    (stepped : before.stepPairing crypto number pairingAction = some next)
    (checks : number = route → pairingAction = .checkCode joiner →
      action = .pairing route (.checkCode joiner)) (responds : ∀ signed hostSecret, number = route →
      pairingAction = .respond joiner signed hostSecret →
      ∃ reading rest, action = .serve joiner reading ∧
        (device.sessions joiner).inbox = .pairingResponse signed :: rest) :
    HandshakeStep crypto device next action route joiner := by
  obtain ⟨after, taken, rfl⟩ := Option.map_eq_some_iff.mp stepped
  by_cases isRoute : route = number
  · subst isRoute
    have here : ((before.setRoute route { before.routes route with host := after }).routes
        route).host = after := by rw [routes_setRoute_self]
    rw [same] at taken
    cases admitStep taken joiner with
    | unchanged unchanged => exact .unchanged (by rw [here, unchanged])
    | presented request hosted isCheck phase slot live code unverified =>
      exact .presented request hosted (checks rfl isCheck) phase slot live code
        (by rw [here]; exact unverified)
    | answered request serial challenge signed hostSecret isResponse phase verified =>
      obtain ⟨reading, rest, isServe, frame⟩ := responds signed hostSecret rfl isResponse
      exact .answered reading request serial challenge signed rest isServe phase frame verified
    | onward relies unverified =>
      exact .onward (by rw [here]; exact relies) (by rw [here]; exact unverified)
  · exact .unchanged (by rw [routes_setRoute_of_ne _ isRoute, same])

theorem handshakeStep (stepped : device.step crypto codec action = some next) (route joiner : Nat) :
    HandshakeStep crypto device next action route joiner := by
  have ofVault : ∀ {number : Nat} {vault : VaultStore}, next.routes = update device.routes
      number ((device.routes number).setVault vault) →
        HandshakeStep crypto device next action route joiner := by
    intro number vault set
    by_cases isRoute : route = number
    · subst isRoute
      refine .unchanged ?_
      rw [set, update_self]
      rfl
    · exact .unchanged (by rw [set, update_of_ne isRoute])
  cases routeStep stepped with
  | same same => exact .unchanged (by rw [same])
  | edits edited vault isEdit set => exact ofVault set
  | syncs number reading peerId vault isServe phase set => exact ofVault set
  | pairs before number pairingAction same paired checks responds =>
    refine handshakeStep_stepPairing same paired (fun isRoute isCheck => ?_)
      (fun signed hostSecret _ isResponse => responds joiner signed hostSecret isResponse)
    subst isRoute
    exact checks joiner isCheck

end

/-! ### What a phase vouches for -/

/-- What a device holds of its sessions and its pairings, in terms of the past. -/
structure Vouched (crypto : SessionCrypto) (codec : Codec Bytes) (start : InboundDevice Bytes)
    (past : List (InboundAction Bytes)) (device : InboundDevice Bytes) : Prop where
  untouched : ∀ number, (device.sessions number).phase = .accepted →
    (device.sessions number).outbox = []
  greeted : ∀ number peerPubkey transcript,
    (device.sessions number).phase = .awaitsRelayAuth peerPubkey transcript →
    ∃ peerId, (device.sessions number).transport = .relayServer peerId ∧
      RelayGreeted crypto codec start past number (device.sessions number).route peerId peerPubkey
        transcript
  authenticated : ∀ number peerId, (device.sessions number).phase.peer = some peerId →
    HelloVerified crypto codec start past number (device.sessions number).route peerId
  disclosed : ∀ number frame, frame ∈ (device.sessions number).outbox →
    frame.discloses = true →
    ∃ peerId, HelloVerified crypto codec start past number (device.sessions number).route peerId
  presented : ∀ route joiner, ((device.routes route).host.handshakes joiner).reliesOn ≠ none →
    CodePresented crypto codec start past joiner route
  paired : ∀ route joiner request serial sharedSecret,
    (device.routes route).host.handshakes joiner = .verified request serial sharedSecret →
    PairingVerified crypto codec start past joiner route

section

variable {crypto : SessionCrypto} {codec : Codec Bytes} {start device next : InboundDevice Bytes}
  {past : List (InboundAction Bytes)} {action : InboundAction Bytes}

theorem vouched_fresh (identities : Nat → Uuid × String) (vaults : Nat → VaultStore) :
    Vouched crypto codec (fresh identities vaults) [] (fresh identities vaults) where
  untouched number accepted := by cases accepted
  greeted number peerPubkey transcript awaits := by cases awaits
  authenticated number peerId isPeer := by cases isPeer
  disclosed number frame member := by cases member
  presented route joiner relies := absurd rfl relies
  paired route joiner request serial sharedSecret verified := by cases verified

variable {number : Nat}

/-- What goes on from a session that was vouched for. -/
theorem Vouched.still (vouched : Vouched crypto codec start past device)
    (route : (next.sessions number).route = (device.sessions number).route)
    (sends : SendsNothing (device.sessions number) (next.sessions number))
    {frame : SyncMessage Bytes} (member : frame ∈ (next.sessions number).outbox)
    (discloses : frame.discloses = true) :
    ∃ peerId, HelloVerified crypto codec start (past ++ [action]) number
      (next.sessions number).route peerId := by
  have earlier := sends frame member discloses
  obtain ⟨peerId, hello⟩ := vouched.disclosed number frame earlier discloses
  exact ⟨peerId, route ▸ hello.later action⟩

/-- A session that is authenticated now. -/
theorem vouched_hello (ran : (inboundMachine crypto codec).run start past = some device)
    (vouched : Vouched crypto codec start past device)
    (stepped : device.step crypto codec action = some next) {peerId : Uuid}
    (isPeer : (next.sessions number).phase.peer = some peerId) :
    HelloVerified crypto codec start (past ++ [action]) number (next.sessions number).route
      peerId := by
  cases sessionStep stepped number with
  | same transport route phase sent =>
    rw [phase] at isPeer
    rw [route]
    exact (vouched.authenticated number peerId isPeer).later action
  | plain phase =>
    rw [peer_of_isPlain phase] at isPeer
    cases isPeer
  | greeted reading sender clientNonce peerPubkey rest isServe session stored transport route
      phase =>
    rw [phase] at isPeer
    cases isPeer
  | helloed reading exporter remoteIp signature peerPubkey sender rest isServe session stored
      verified route phase =>
    rw [phase] at isPeer
    cases isPeer
    subst isServe
    rw [route]
    exact .quic (taken_now _ ran) session stored verified
  | relayAuthed reading peerPubkey transcript signature sender rest isServe session verified
      route phase =>
    rw [phase] at isPeer
    cases isPeer
    subst isServe
    rw [route]
    obtain ⟨greeter, transport, greeted⟩ := vouched.greeted number peerPubkey transcript
      (by rw [session])
    rw [session] at transport
    cases transport
    exact .relay (taken_now _ ran) greeted session verified
  | onward sender before route phase =>
    rw [phase] at isPeer
    cases isPeer
    rw [route]
    exact (vouched.authenticated number peerId before).later action

theorem vouched_greeted (ran : (inboundMachine crypto codec).run start past = some device)
    (vouched : Vouched crypto codec start past device)
    (stepped : device.step crypto codec action = some next) {peerPubkey transcript : String}
    (awaits : (next.sessions number).phase = .awaitsRelayAuth peerPubkey transcript) :
    ∃ peerId, (next.sessions number).transport = .relayServer peerId ∧
      RelayGreeted crypto codec start (past ++ [action]) number (next.sessions number).route peerId
        peerPubkey transcript := by
  cases sessionStep stepped number with
  | same transport route phase sent =>
    rw [phase] at awaits
    obtain ⟨peerId, sender, greeted⟩ := vouched.greeted number peerPubkey transcript awaits
    exact ⟨peerId, transport.trans sender, route ▸ greeted.later action⟩
  | plain phase =>
    rw [awaits] at phase
    cases phase
  | greeted reading sender clientNonce key rest isServe session stored transport route phase =>
    rw [phase] at awaits
    cases awaits
    subst isServe
    refine ⟨sender, transport, ?_⟩
    rw [route]
    exact .intro (taken_now _ ran) session stored rfl
  | helloed reading exporter remoteIp signature key sender rest isServe session stored verified
      route phase =>
    rw [phase] at awaits
    cases awaits
  | relayAuthed reading key other signature sender rest isServe session verified route phase =>
    rw [phase] at awaits
    cases awaits
  | onward sender before route phase =>
    rw [awaits] at phase
    cases phase

theorem vouched_disclosed (ran : (inboundMachine crypto codec).run start past = some device)
    (vouched : Vouched crypto codec start past device)
    (stepped : device.step crypto codec action = some next) {frame : SyncMessage Bytes}
    (member : frame ∈ (next.sessions number).outbox) (discloses : frame.discloses = true) :
    ∃ peerId, HelloVerified crypto codec start (past ++ [action]) number
      (next.sessions number).route peerId := by
  have step := sessionStep stepped number
  cases step with
  | same transport route phase sent =>
    exact vouched.still route (fun frame member _ => sent ▸ member) member discloses
  | plain phase route opened sends =>
    rcases route with same | empty | accepted
    · exact vouched.still same sends member discloses
    · rw [empty] at member
      cases member
    · have earlier := sends frame member discloses
      rw [vouched.untouched number accepted] at earlier
      cases earlier
  | greeted reading sender clientNonce key rest isServe session stored transport route phase
      sends =>
    exact vouched.still route sends member discloses
  | helloed reading exporter remoteIp signature key sender rest isServe session stored verified
      route phase sends =>
    exact vouched.still route sends member discloses
  | relayAuthed reading key other signature sender rest isServe session verified route phase
      sends =>
    exact vouched.still route sends member discloses
  | onward sender before route phase =>
    exact ⟨sender, vouched_hello ran vouched stepped phase⟩

variable {joiner : Nat}

theorem vouched_presented (ran : (inboundMachine crypto codec).run start past = some device)
    (vouched : Vouched crypto codec start past device)
    (stepped : device.step crypto codec action = some next) {route : Nat}
    (relies : ((next.routes route).host.handshakes joiner).reliesOn ≠ none) :
    CodePresented crypto codec start (past ++ [action]) joiner route := by
  cases handshakeStep stepped route joiner with
  | unchanged same =>
    rw [same] at relies
    exact (vouched.presented route joiner relies).later action
  | presented request hosted isCheck phase slot live code =>
    subst isCheck
    exact .intro (taken_now _ ran) phase slot live code
  | answered reading request serial challenge signed rest isServe phase =>
    refine (vouched.presented route joiner ?_).later action
    rw [phase]
    exact Option.some_ne_none serial
  | onward before => exact (vouched.presented route joiner (before relies)).later action

theorem vouched_paired (ran : (inboundMachine crypto codec).run start past = some device)
    (vouched : Vouched crypto codec start past device)
    (stepped : device.step crypto codec action = some next) {route : Nat} {request : PairingRequest}
    {serial : Nat} {sharedSecret : String} (verified : (next.routes route).host.handshakes joiner =
      .verified request serial sharedSecret) :
    PairingVerified crypto codec start (past ++ [action]) joiner route := by
  cases handshakeStep stepped route joiner with
  | unchanged same =>
    rw [same] at verified
    exact (vouched.paired route joiner request serial sharedSecret verified).later action
  | presented presenting hosted isCheck phase slot live code unverified =>
    exact absurd verified (unverified request serial sharedSecret)
  | answered reading asking serial challenge signed rest isServe phase frame isSigned =>
    subst isServe
    have code := vouched.presented route joiner (by rw [phase]; exact Option.some_ne_none serial)
    exact .intro (code.later _) (taken_now _ ran) phase frame isSigned
  | onward before unverified => exact absurd verified (unverified request serial sharedSecret)

theorem vouched_step
    (ran : (inboundMachine crypto codec).run start past = some device)
    (vouched : Vouched crypto codec start past device)
    (stepped : device.step crypto codec action = some next) :
    Vouched crypto codec start (past ++ [action]) next where
  untouched number accepted := by
    cases sessionStep stepped number with
    | same transport route phase sent => rw [sent, vouched.untouched number (phase ▸ accepted)]
    | plain phase route opened => exact opened accepted
    | greeted reading sender clientNonce key rest isServe session stored transport route phase =>
      rw [accepted] at phase
      cases phase
    | helloed reading exporter remoteIp signature key sender rest isServe session stored verified
        route phase =>
      rw [accepted] at phase
      cases phase
    | relayAuthed reading key other signature sender rest isServe session verified route phase =>
      rw [accepted] at phase
      cases phase
    | onward sender before route phase =>
      rw [accepted] at phase
      cases phase
  greeted _ _ _ := vouched_greeted ran vouched stepped
  authenticated _ _ := vouched_hello ran vouched stepped
  disclosed _ _ := vouched_disclosed ran vouched stepped
  presented _ _ := vouched_presented ran vouched stepped
  paired _ _ _ _ _ := vouched_paired ran vouched stepped

variable {identities : Nat → Uuid × String} {vaults : Nat → VaultStore}

theorem vouched_of_run
    (ran : (inboundMachine crypto codec).run (fresh identities vaults) past = some device) :
    Vouched crypto codec (fresh identities vaults) past device := by
  have kept : ∀ past reached action next,
      (inboundMachine crypto codec).run (fresh identities vaults) past = some reached →
      Vouched crypto codec (fresh identities vaults) past reached →
      (inboundMachine crypto codec).step reached action = some next →
      Vouched crypto codec (fresh identities vaults) (past ++ [action]) next :=
    fun _ _ _ _ before vouched stepped => vouched_step before vouched stepped
  exact Machine.past_induction (vouched_fresh identities vaults) kept ran

theorem sameButPeers_rfl (vault : VaultStore) : vault.SameButPeers vault := rfl

theorem sameButPeers_trans {vault middle other : VaultStore} (first : vault.SameButPeers middle)
    (second : middle.SameButPeers other) : vault.SameButPeers other := by
  rw [VaultStore.SameButPeers, ← first] at second
  exact second

/-- What a run has made of the vaults without a hello. -/
theorem unauthenticated_of_run
    (ran : (inboundMachine crypto codec).run (fresh identities vaults) past = some device)
    (unedited : ∀ route vault, .edit route vault ∉ past) (nobody : ∀ number route peerId,
      ¬ HelloVerified crypto codec (fresh identities vaults) past number route peerId) (route : Nat) :
    (vaults route).SameButPeers (device.routes route).vault ∧
      ((∀ number route,
          ¬ PairingVerified crypto codec (fresh identities vaults) past number route) →
        (device.routes route).vault = vaults route) := by
  let holds := fun (past : List (InboundAction Bytes)) (device : InboundDevice Bytes) =>
    (∀ route vault, .edit route vault ∉ past) →
      (∀ number route peerId,
        ¬ HelloVerified crypto codec (fresh identities vaults) past number route peerId) →
      (vaults route).SameButPeers (device.routes route).vault ∧
        ((∀ number route,
            ¬ PairingVerified crypto codec (fresh identities vaults) past number route) →
          (device.routes route).vault = vaults route)
  have start : holds [] (fresh identities vaults) := fun _ _ =>
    ⟨sameButPeers_rfl _, fun _ => rfl⟩
  have kept : ∀ past reached action next,
      (inboundMachine crypto codec).run (fresh identities vaults) past = some reached →
      holds past reached → (inboundMachine crypto codec).step reached action = some next →
      holds (past ++ [action]) next := by
    intro past reached action next before held stepped unedited nobody
    have vouched := vouched_of_run before
    obtain ⟨same, unchanged⟩ := held
      (fun route vault member => unedited route vault (List.mem_append_left _ member))
      (fun number route peerId hello => nobody number route peerId (hello.later action))
    cases vaultStep stepped route with
    | same here =>
      rw [here]
      exact ⟨same, fun unpaired => unchanged fun number route paired =>
        unpaired number route (paired.later action)⟩
    | edited vault isEdit =>
      exact absurd (List.mem_append_right _ (by rw [isEdit]; exact List.mem_singleton_self _))
        (unedited route vault)
    | synced number reading peerId isServe onRoute phase =>
      have hello := vouched.authenticated number peerId phase
      exact absurd (hello.later action) (nobody number _ peerId)
    | paired number request serial sharedSecret phase peers =>
      refine ⟨sameButPeers_trans same peers, fun unpaired => ?_⟩
      have paired := vouched.paired route number request serial sharedSecret phase
      exact absurd (paired.later action) (unpaired number route)
  exact Machine.past_induction start kept ran unedited nobody

/-- No frame is acted on before the peer is authenticated, whatever vaults the device has, whatever
comes in over the listener and the relay, and in whatever order. -/
theorem actsAfterHello (crypto : SessionCrypto) (codec : Codec Bytes)
    (identities : Nat → Uuid × String) (vaults : Nat → VaultStore) :
    ActsAfterHello crypto codec (fresh identities vaults) where
  handlers past device number peerId sharedSecret ran phase :=
    (vouched_of_run ran).authenticated number peerId (by rw [phase]; rfl)
  changes past device action next route ran stepped changed := by
    have vouched := vouched_of_run ran
    cases vaultStep stepped route with
    | same here => exact absurd here changed
    | edited vault isEdit => exact .inl ⟨vault, isEdit⟩
    | synced number reading peerId isServe onRoute phase =>
      have hello := vouched.authenticated number peerId phase
      rw [onRoute] at hello
      exact .inr (.inl ⟨number, reading, peerId, isServe, onRoute, hello⟩)
    | paired number request serial sharedSecret phase peers =>
      exact .inr (.inr ⟨peers, number,
        vouched.paired route number request serial sharedSecret phase⟩)
  sends past device number frame ran := (vouched_of_run ran).disclosed number frame
  unauthenticated past device ran unedited nobody := by
    refine ⟨fun route => (unauthenticated_of_run ran unedited nobody route).1, ?_,
      fun unpaired route => (unauthenticated_of_run ran unedited nobody route).2 unpaired⟩
    intro number frame member
    by_contra discloses
    rw [Bool.not_eq_false] at discloses
    obtain ⟨peerId, hello⟩ := (vouched_of_run ran).disclosed number frame member discloses
    exact nobody number _ peerId hello

end

end InboundDevice

end Oryxis

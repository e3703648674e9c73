/-
This file is about what the host's handshakes make of a code: that it lets in one
device, that a code that is gone lets in nobody, and that finishing one handshake
leaves a newer code alone.

None of this is so in general, because the code is read once, before the challenge,
and the slot is emptied without looking at what it holds. It is so exactly as long
as no step falls on a handshake whose code has left the slot: when the peer is
stored, the slot still holds the hosting that was read, unexpired, and nobody was
stored on it; when the slot is emptied, it holds nothing else.
-/

import Oryxis.Sync.Pairing

namespace Oryxis

open Library List

/-! ### The property -/

def PairingEvent.isStoreOn (serial : Nat) : PairingEvent → Bool
  | .stored other _ _ => other == serial
  | _ => false

/-- The code of a hosting was neither withdrawn nor used nor expired. -/
structure Usable (serial clock : Nat) (earlier : List PairingEvent) : Prop where
  notWithdrawn : .withdrawn serial ∉ earlier
  notConsumed : earlier.any (PairingEvent.isStoreOn serial) = false
  notExpired : ∀ expiresAt, .hosted serial expiresAt ∈ earlier → clock < expiresAt

/-- One code, one device; the past is newest first. -/
structure OneCodeOneDevice (past : List PairingEvent) : Prop where
  atMostOne : ∀ serial, past.countP (PairingEvent.isStoreOn serial) ≤ 1
  usable : ∀ later serial deviceId clock earlier,
    past = later ++ .stored serial deviceId clock :: earlier → Usable serial clock earlier
  ownCode : ∀ later serial removed earlier,
    past = later ++ .cleared serial (some removed) :: earlier → removed = serial

/-- What the property says of the newest event. -/
def PairingEvent.passes (earlier : List PairingEvent) : PairingEvent → Prop
  | .stored serial _ clock => Usable serial clock earlier
  | .cleared serial removed => ∀ other, removed = some other → other = serial
  | _ => True

theorem oneCodeOneDevice_nil : OneCodeOneDevice [] where
  atMostOne _ := Nat.zero_le 1
  usable later serial deviceId clock earlier split := by simp at split
  ownCode later serial removed earlier split := by simp at split

theorem oneCodeOneDevice_cons (event : PairingEvent) (past : List PairingEvent) :
    OneCodeOneDevice (event :: past) ↔ OneCodeOneDevice past ∧ event.passes past := by
  constructor
  · intro sound
    refine ⟨⟨fun serial => ?_, fun later serial deviceId clock earlier split => ?_,
      fun later serial removed earlier split => ?_⟩, ?_⟩
    · refine Nat.le_trans ?_ (sound.atMostOne serial)
      rw [countP_cons]
      exact Nat.le_add_right ..
    · exact sound.usable (event :: later) serial deviceId clock earlier (by rw [split]; rfl)
    · exact sound.ownCode (event :: later) serial removed earlier (by rw [split]; rfl)
    · cases event with
      | stored serial deviceId clock => exact sound.usable [] serial deviceId clock past rfl
      | cleared serial removed =>
        rintro other rfl
        exact sound.ownCode [] serial other past rfl
      | hosted serial expiresAt => trivial
      | withdrawn serial => trivial
  · rintro ⟨sound, passes⟩
    refine ⟨fun serial => ?_, fun later serial deviceId clock earlier split => ?_,
      fun later serial removed earlier split => ?_⟩
    · rw [countP_cons]
      by_cases isStore : event.isStoreOn serial
      · -- The past of a store has no store on the same code.
        cases event with
        | stored other deviceId clock =>
          have same : other = serial := by simpa [PairingEvent.isStoreOn] using isStore
          subst same
          have none : past.countP (PairingEvent.isStoreOn other) = 0 := by
            rw [countP_eq_zero]
            simpa using passes.notConsumed
          have count : (if PairingEvent.isStoreOn other (.stored other deviceId clock) = true then 1
              else 0) = 1 := if_pos isStore
          omega
        | hosted other expiresAt => cases isStore
        | withdrawn other => cases isStore
        | cleared other removed => cases isStore
      · rw [if_neg isStore]
        exact sound.atMostOne serial
    · cases later with
      | nil =>
        cases split
        exact passes
      | cons newest later =>
        cases split
        exact sound.usable later serial deviceId clock earlier rfl
    · cases later with
      | nil =>
        cases split
        exact passes removed rfl
      | cons newest later =>
        cases split
        exact sound.ownCode later serial removed earlier rfl

/-! ### What a step does -/

namespace HandshakePhase

/-- The hosting whose code a handshake has been let through by. -/
def reliesOn : HandshakePhase → Option Nat
  | .codeMatched _ serial | .challenged _ serial _ | .verified _ serial _ => some serial
  | _ => none

/-- The hosting a handshake has stored its peer on. -/
def storedOn : HandshakePhase → Option Nat
  | .stored _ serial | .cleared _ serial | .endpointFailed _ serial => some serial
  | _ => none

end HandshakePhase

namespace PairingHost

/-- The slot still holds the hosting a handshake was let through by, unexpired, and no peer was
stored on it. -/
def Holds (host : PairingHost) (serial : Nat) : Prop :=
  (∃ pairing, host.hosting = some pairing ∧ pairing.serial = serial ∧
    host.clock < pairing.expiresAt) ∧
  ∀ joiner, (host.handshakes joiner).storedOn ≠ some serial

/-- No step falls on a handshake whose code has left the slot. -/
def Undisturbed (host : PairingHost) : PairingAction → Prop
  | .storePeer joiner _ outcome =>
    outcome ≠ .saveFailed →
      ∀ serial, (host.handshakes joiner).reliesOn = some serial → host.Holds serial
  | .clearCode joiner =>
    ∀ serial, (host.handshakes joiner).storedOn = some serial →
      ∀ pairing, host.hosting = some pairing → pairing.serial = serial
  | _ => True

/-- A step that neither fills nor empties the slot and stores no peer. -/
structure Quiet (host next : PairingHost) : Prop where
  past : next.past = host.past
  hostings : next.hostings = host.hostings
  slot : next.hosting.map (fun pairing => (pairing.serial, pairing.expiresAt)) =
    host.hosting.map fun pairing => (pairing.serial, pairing.expiresAt)
  vault : next.vault = host.vault
  storedOn : ∀ joiner, (next.handshakes joiner).storedOn = (host.handshakes joiner).storedOn
  reliesOn : ∀ joiner serial, (next.handshakes joiner).reliesOn = some serial →
    (host.handshakes joiner).reliesOn = some serial ∨
      ∃ pairing, host.hosting = some pairing ∧ pairing.serial = serial

theorem handshakes_setPhase (host : PairingHost) (joiner : Nat) (phase : HandshakePhase)
    (other : Nat) :
    (host.setPhase joiner phase).handshakes other =
      if other = joiner then phase else host.handshakes other :=
  Function.update_apply ..

theorem quiet_setPhase (host : PairingHost) (joiner : Nat) (phase : HandshakePhase)
    (storedOn : phase.storedOn = (host.handshakes joiner).storedOn)
    (reliesOn : ∀ serial, phase.reliesOn = some serial →
      (host.handshakes joiner).reliesOn = some serial ∨
        ∃ pairing, host.hosting = some pairing ∧ pairing.serial = serial) :
    Quiet host (host.setPhase joiner phase) := by
  refine ⟨rfl, rfl, rfl, rfl, fun other => ?_, fun other serial relies => ?_⟩
  · rw [handshakes_setPhase]
    split
    · rename_i same
      rw [storedOn, same]
    · rfl
  · rw [handshakes_setPhase] at relies
    split at relies
    · rename_i same
      rw [same]
      exact reliesOn serial relies
    · exact .inl relies

/-- A handshake that is turned away, or that has not been let through yet. -/
theorem quiet_setPhase_of_none (host : PairingHost) (joiner : Nat) (phase : HandshakePhase)
    (storedOn : phase.storedOn = (host.handshakes joiner).storedOn)
    (reliesOn : phase.reliesOn = none) : Quiet host (host.setPhase joiner phase) := by
  refine quiet_setPhase host joiner phase storedOn fun serial relies => ?_
  rw [reliesOn] at relies
  cases relies

theorem quiet_countFailure (host : PairingHost) (joiner : Nat) (request : PairingRequest)
    (reason : String) (notStored : (host.handshakes joiner).storedOn = none) :
    Quiet host (host.countFailure joiner request reason) := by
  unfold countFailure
  split
  · exact quiet_setPhase_of_none host joiner _ notStored.symm rfl
  · rename_i pairing hosted
    have quiet := quiet_setPhase_of_none host joiner
      (.rejected (if (pairing.recordFailure request.source).2 then "Rate limited" else reason))
      notStored.symm rfl
    refine ⟨rfl, rfl, ?_, rfl, quiet.storedOn, quiet.reliesOn⟩
    rw [hosted]
    rfl

theorem quiet_checkCode (host : PairingHost) (joiner : Nat) (request : PairingRequest)
    (notStored : (host.handshakes joiner).storedOn = none) :
    Quiet host (host.checkCode joiner request) := by
  unfold checkCode
  split
  · exact quiet_setPhase_of_none host joiner _ notStored.symm rfl
  · rename_i pairing live
    have hosted := (Option.filter_eq_some_iff.mp live).1
    split
    · refine quiet_setPhase host joiner _ notStored.symm fun serial relies => .inr ?_
      cases relies
      exact ⟨pairing, hosted, rfl⟩
    · exact quiet_setPhase_of_none host joiner _ notStored.symm rfl

variable (crypto : PairingCrypto)

theorem quiet_respond (host : PairingHost) (joiner : Nat) (request : PairingRequest) (serial : Nat)
    (challenge signed hostSecret : String)
    (phase : host.handshakes joiner = .challenged request serial challenge) :
    Quiet host (respond crypto host joiner request serial challenge signed hostSecret) := by
  have notStored : (host.handshakes joiner).storedOn = none := by rw [phase]; rfl
  unfold respond
  split
  · split
    · refine quiet_setPhase host joiner _ notStored.symm fun other relies => .inl ?_
      rw [phase]
      exact relies
    · exact quiet_setPhase_of_none host joiner _ notStored.symm rfl
  · exact quiet_setPhase_of_none host joiner _ notStored.symm rfl

/-- The host once a joiner's peer row is written. -/
def withPeer (host : PairingHost) (request : PairingRequest) (serial : Nat)
    (sharedSecret : String) (pairedAt : Stamp) : PairingHost :=
  { host with
    vault := host.vault.saveSyncPeer request.deviceId request.deviceName request.publicKey
      (some sharedSecret) pairedAt
    past := .stored serial request.deviceId host.clock :: host.past }

/-- All that a step can do. -/
inductive StepEffect (host : PairingHost) : PairingAction → PairingHost → Prop where
  | quiet {action next} (quiet : Quiet host next) (undisturbed : host.Undisturbed action) :
    StepEffect host action next
  | hosted (code : String) :
    StepEffect host (.startHosting code) (host.startHostingPairing code)
  | cancelled : StepEffect host .cancelHosting host.cancelHostingPairing
  | stored (joiner : Nat) (request : PairingRequest) (serial : Nat) (sharedSecret : String)
      (pairedAt : Stamp) (outcome : PeerWrite) (phase : HandshakePhase)
      (verified : host.handshakes joiner = .verified request serial sharedSecret)
      (written : outcome ≠ .saveFailed) (storedOn : phase.storedOn = some serial)
      (letGo : phase.reliesOn = none) :
    StepEffect host (.storePeer joiner pairedAt outcome)
      ((host.withPeer request serial sharedSecret pairedAt).setPhase joiner phase)
  | cleared (joiner : Nat) (request : PairingRequest) (serial : Nat)
      (stored : host.handshakes joiner = .stored request serial) :
    StepEffect host (.clearCode joiner) (host.clearCode joiner request serial)

variable {host next : PairingHost} {action : PairingAction}

theorem stepEffect (stepped : host.step crypto action = some next) :
    StepEffect host action next := by
  cases action with
  | startHosting code =>
    cases stepped
    exact .hosted code
  | cancelHosting =>
    cases stepped
    exact .cancelled
  | elapse ticks =>
    cases stepped
    exact .quiet ⟨rfl, rfl, rfl, rfl, fun _ => rfl, fun _ _ => .inl⟩ trivial
  | receive joiner request =>
    simp only [step] at stepped
    split at stepped <;> cases stepped
    rename_i phase
    exact .quiet (quiet_setPhase_of_none host joiner _ (by rw [phase]; rfl) rfl) trivial
  | checkCap joiner =>
    simp only [step] at stepped
    split at stepped <;> cases stepped
    rename_i request phase
    refine .quiet ?_ trivial
    unfold checkCap
    refine quiet_setPhase_of_none host joiner _ ?_ ?_
    · rw [phase]
      split <;> rfl
    · split <;> rfl
  | checkCode joiner =>
    simp only [step] at stepped
    split at stepped <;> cases stepped
    rename_i request phase
    exact .quiet (quiet_checkCode host joiner request (by rw [phase]; rfl)) trivial
  | countFailure joiner =>
    simp only [step] at stepped
    split at stepped <;> cases stepped
    · rename_i request phase
      exact .quiet (quiet_countFailure host joiner request _ (by rw [phase]; rfl)) trivial
    · rename_i request phase
      exact .quiet (quiet_countFailure host joiner request _ (by rw [phase]; rfl)) trivial
  | challenge joiner challenge pairedElsewhere =>
    simp only [step] at stepped
    split at stepped
    · rename_i request serial phase
      split at stepped <;> cases stepped
      · exact .quiet (quiet_setPhase_of_none host joiner _ (by rw [phase]; rfl) rfl) trivial
      · refine .quiet (quiet_setPhase host joiner _ (by rw [phase]; rfl) fun other relies =>
          .inl ?_) trivial
        rw [phase]
        exact relies
    · cases stepped
  | respond joiner signed hostSecret =>
    simp only [step] at stepped
    split at stepped <;> cases stepped
    rename_i request serial challenge phase
    exact .quiet (quiet_respond crypto host joiner request serial challenge signed hostSecret phase)
      trivial
  | storePeer joiner pairedAt outcome =>
    simp only [step] at stepped
    split at stepped
    · rename_i request serial sharedSecret phase
      cases outcome with
      | saveFailed =>
        cases stepped
        exact .quiet (quiet_setPhase_of_none host joiner _ (by rw [phase]; rfl) rfl)
          fun failed => absurd rfl failed
      | saved =>
        cases stepped
        exact .stored joiner request serial sharedSecret pairedAt .saved _ phase
          (fun failed => PeerWrite.noConfusion failed) rfl rfl
      | endpointFailed =>
        simp only [storePeer] at stepped
        split at stepped <;> cases stepped
        exact .stored joiner request serial sharedSecret pairedAt .endpointFailed _ phase
          (fun failed => PeerWrite.noConfusion failed) rfl rfl
    · cases stepped
  | clearCode joiner =>
    simp only [step] at stepped
    split at stepped <;> cases stepped
    rename_i request serial phase
    exact .cleared joiner request serial phase
  | loseConnection joiner =>
    simp only [step] at stepped
    split at stepped <;> cases stepped
    · rename_i request serial phase
      exact .quiet (quiet_setPhase_of_none host joiner _ (by rw [phase]; rfl) rfl) trivial
    · rename_i request serial challenge phase
      exact .quiet (quiet_setPhase_of_none host joiner _ (by rw [phase]; rfl) rfl) trivial

/-! ### The past and the state agree -/

/-- Some peer was stored on the code of this hosting. -/
def consumed (host : PairingHost) (serial : Nat) : Prop :=
  host.past.any (PairingEvent.isStoreOn serial) = true

/-- What the past says of a hosting and what the slot and the handshakes say of it. -/
structure Recorded (host : PairingHost) : Prop where
  slotHosted : ∀ pairing, host.hosting = some pairing →
    .hosted pairing.serial pairing.expiresAt ∈ host.past
  slotKept : ∀ pairing, host.hosting = some pairing →
    .withdrawn pairing.serial ∉ host.past ∧
      ∀ serial, .cleared serial (some pairing.serial) ∉ host.past
  expiry : ∀ serial expiresAt other, .hosted serial expiresAt ∈ host.past →
    .hosted serial other ∈ host.past → expiresAt = other
  hostedBelow : ∀ serial expiresAt, .hosted serial expiresAt ∈ host.past → serial < host.hostings
  withdrawnBelow : ∀ serial, .withdrawn serial ∈ host.past → serial < host.hostings
  clearedBelow : ∀ serial removed, .cleared serial (some removed) ∈ host.past →
    removed < host.hostings
  relied : ∀ joiner serial, (host.handshakes joiner).reliesOn = some serial →
    ∃ expiresAt, .hosted serial expiresAt ∈ host.past
  storer : ∀ serial, host.consumed serial ↔
    ∃ joiner, (host.handshakes joiner).storedOn = some serial
  clearer : ∀ serial removed, .cleared serial removed ∈ host.past → host.consumed serial
  gone : ∀ serial expiresAt, .hosted serial expiresAt ∈ host.past →
    (∃ pairing, host.hosting = some pairing ∧ pairing.serial = serial) ∨
      .withdrawn serial ∈ host.past ∨ ∃ other, .cleared other (some serial) ∈ host.past

theorem recorded_fresh (vault : VaultStore) : Recorded (fresh vault) where
  slotHosted _ slot := by cases slot
  slotKept _ slot := by cases slot
  expiry _ _ _ hosted := by cases hosted
  hostedBelow _ _ hosted := by cases hosted
  withdrawnBelow _ withdrawn := by cases withdrawn
  clearedBelow _ _ cleared := by cases cleared
  relied _ _ relies := by cases relies
  storer serial := by
    constructor
    · intro used
      cases used
    · rintro ⟨joiner, stored⟩
      cases stored
  clearer _ _ cleared := by cases cleared
  gone _ _ hosted := by cases hosted

theorem recorded_of_quiet (recorded : Recorded host) (quiet : Quiet host next) : Recorded next := by
  -- The two slots hold the same hosting, if any.
  have back : ∀ pairing, next.hosting = some pairing → ∃ earlier, host.hosting = some earlier ∧
      earlier.serial = pairing.serial ∧ earlier.expiresAt = pairing.expiresAt := by
    intro pairing slot
    have same := quiet.slot
    rw [slot] at same
    obtain ⟨earlier, hosted, equal⟩ := Option.map_eq_some_iff.mp same.symm
    exact ⟨earlier, hosted, congrArg Prod.fst equal, congrArg Prod.snd equal⟩
  have forth : ∀ serial, (∃ pairing, host.hosting = some pairing ∧ pairing.serial = serial) →
      ∃ pairing, next.hosting = some pairing ∧ pairing.serial = serial := by
    rintro serial ⟨pairing, slot, rfl⟩
    have same := quiet.slot
    rw [slot] at same
    obtain ⟨later, hosted, equal⟩ := Option.map_eq_some_iff.mp same
    exact ⟨later, hosted, congrArg Prod.fst equal⟩
  have used : ∀ serial, next.consumed serial ↔ host.consumed serial := by
    intro serial
    unfold consumed
    rw [quiet.past]
  refine ⟨?_, ?_, ?_, ?_, ?_, ?_, ?_, ?_, ?_, ?_⟩
  · intro pairing slot
    obtain ⟨earlier, hosted, sameSerial, sameExpiry⟩ := back pairing slot
    rw [quiet.past, ← sameSerial, ← sameExpiry]
    exact recorded.slotHosted earlier hosted
  · intro pairing slot
    obtain ⟨earlier, hosted, sameSerial, _⟩ := back pairing slot
    rw [quiet.past, ← sameSerial]
    exact recorded.slotKept earlier hosted
  · rw [quiet.past]
    exact recorded.expiry
  · rw [quiet.past, quiet.hostings]
    exact recorded.hostedBelow
  · rw [quiet.past, quiet.hostings]
    exact recorded.withdrawnBelow
  · rw [quiet.past, quiet.hostings]
    exact recorded.clearedBelow
  · intro joiner serial relies
    rw [quiet.past]
    rcases quiet.reliesOn joiner serial relies with relied | ⟨pairing, slot, rfl⟩
    · exact recorded.relied joiner serial relied
    · exact ⟨_, recorded.slotHosted pairing slot⟩
  · intro serial
    simp only [quiet.storedOn]
    rw [used]
    exact recorded.storer serial
  · intro serial removed cleared
    rw [quiet.past] at cleared
    rw [used]
    exact recorded.clearer serial removed cleared
  · intro serial expiresAt hosted
    rw [quiet.past] at hosted ⊢
    exact (recorded.gone serial expiresAt hosted).imp_left (forth serial)

theorem mem_withdraw (host : PairingHost) (event : PairingEvent) :
    event ∈ host.withdraw ↔ event ∈ host.past ∨
      ∃ pairing, host.hosting = some pairing ∧ event = .withdrawn pairing.serial := by
  unfold withdraw
  cases slot : host.hosting with
  | none => simp
  | some pairing =>
    rw [mem_cons, or_comm]
    refine or_congr_right ⟨fun same => ⟨pairing, rfl, same⟩, ?_⟩
    rintro ⟨other, isOther, same⟩
    cases isOther
    exact same

/-- Withdrawing a code writes nothing but that it was withdrawn. -/
theorem mem_withdraw_of_ne (host : PairingHost) {event : PairingEvent}
    (other : ∀ serial, event ≠ .withdrawn serial) : event ∈ host.withdraw ↔ event ∈ host.past := by
  rw [mem_withdraw]
  refine ⟨fun member => member.elim id ?_, .inl⟩
  rintro ⟨pairing, _, same⟩
  exact absurd same (other pairing.serial)

theorem any_isStoreOn_withdraw (host : PairingHost) (serial : Nat) :
    host.withdraw.any (PairingEvent.isStoreOn serial) =
      host.past.any (PairingEvent.isStoreOn serial) := by
  unfold withdraw
  split <;> rfl

theorem recorded_cancel (recorded : Recorded host) :
    Recorded host.cancelHostingPairing where
  slotHosted _ slot := by cases slot
  slotKept _ slot := by cases slot
  expiry serial expiresAt other hosted otherHosted :=
    recorded.expiry serial expiresAt other ((mem_withdraw_of_ne host (by simp)).mp hosted)
      ((mem_withdraw_of_ne host (by simp)).mp otherHosted)
  hostedBelow serial expiresAt hosted :=
    recorded.hostedBelow serial expiresAt ((mem_withdraw_of_ne host (by simp)).mp hosted)
  withdrawnBelow serial withdrawn := by
    rcases (mem_withdraw host _).mp withdrawn with earlier | ⟨pairing, slot, same⟩
    · exact recorded.withdrawnBelow serial earlier
    · cases same
      exact recorded.hostedBelow _ _ (recorded.slotHosted pairing slot)
  clearedBelow serial removed cleared :=
    recorded.clearedBelow serial removed ((mem_withdraw_of_ne host (by simp)).mp cleared)
  relied joiner serial relies := by
    obtain ⟨expiresAt, hosted⟩ := recorded.relied joiner serial relies
    exact ⟨expiresAt, (mem_withdraw_of_ne host (by simp)).mpr hosted⟩
  storer serial := by
    unfold consumed
    rw [cancelHostingPairing, any_isStoreOn_withdraw]
    exact recorded.storer serial
  clearer serial removed cleared := by
    unfold consumed
    rw [cancelHostingPairing, any_isStoreOn_withdraw]
    exact recorded.clearer serial removed ((mem_withdraw_of_ne host (by simp)).mp cleared)
  gone serial expiresAt hosted := by
    refine .inr ?_
    rcases recorded.gone serial expiresAt ((mem_withdraw_of_ne host (by simp)).mp hosted) with
      ⟨pairing, slot, rfl⟩ | withdrawn | ⟨other, cleared⟩
    · exact .inl ((mem_withdraw host _).mpr (.inr ⟨pairing, slot, rfl⟩))
    · exact .inl ((mem_withdraw host _).mpr (.inl withdrawn))
    · exact .inr ⟨other, (mem_withdraw_of_ne host (by simp)).mpr cleared⟩

/-- Hosting withdraws first. -/
theorem startHostingPairing_cancel (host : PairingHost) (code : String) :
    host.cancelHostingPairing.startHostingPairing code = host.startHostingPairing code := rfl

theorem recorded_host (recorded : Recorded host) (empty : host.hosting = none) (code : String) :
    Recorded (host.startHostingPairing code) := by
  have past : (host.startHostingPairing code).past =
      .hosted host.hostings (host.clock + pairingCodeTtl) :: host.past := by
    simp [startHostingPairing, withdraw, empty]
  have mem : ∀ event, event ∈ (host.startHostingPairing code).past ↔
      event = .hosted host.hostings (host.clock + pairingCodeTtl) ∨ event ∈ host.past := by
    intro event
    rw [past, mem_cons]
  have used : ∀ serial, (host.startHostingPairing code).consumed serial ↔
      host.consumed serial := by
    intro serial
    unfold consumed
    rw [past, any_cons]
    rfl
  refine ⟨?_, ?_, ?_, ?_, ?_, ?_, ?_, ?_, ?_, ?_⟩
  · intro pairing slot
    cases slot
    exact (mem _).mpr (.inl rfl)
  · -- The serial is new, so nothing in the past speaks of it.
    intro pairing slot
    cases slot
    constructor
    · intro withdrawn
      rcases (mem _).mp withdrawn with same | earlier
      · cases same
      · exact Nat.lt_irrefl _ (recorded.withdrawnBelow _ earlier)
    · intro serial cleared
      rcases (mem _).mp cleared with same | earlier
      · cases same
      · exact Nat.lt_irrefl _ (recorded.clearedBelow _ _ earlier)
  · intro serial expiresAt other hosted otherHosted
    rcases (mem _).mp hosted with same | earlier <;>
      rcases (mem _).mp otherHosted with otherSame | otherEarlier
    · cases same
      cases otherSame
      rfl
    · cases same
      exact absurd (recorded.hostedBelow _ _ otherEarlier) (Nat.lt_irrefl _)
    · cases otherSame
      exact absurd (recorded.hostedBelow _ _ earlier) (Nat.lt_irrefl _)
    · exact recorded.expiry serial expiresAt other earlier otherEarlier
  · intro serial expiresAt hosted
    rcases (mem _).mp hosted with same | earlier
    · cases same
      exact Nat.lt_succ_self _
    · exact Nat.lt_succ_of_lt (recorded.hostedBelow serial expiresAt earlier)
  · intro serial withdrawn
    rcases (mem _).mp withdrawn with same | earlier
    · cases same
    · exact Nat.lt_succ_of_lt (recorded.withdrawnBelow serial earlier)
  · intro serial removed cleared
    rcases (mem _).mp cleared with same | earlier
    · cases same
    · exact Nat.lt_succ_of_lt (recorded.clearedBelow serial removed earlier)
  · intro joiner serial relies
    obtain ⟨expiresAt, hosted⟩ := recorded.relied joiner serial relies
    exact ⟨expiresAt, (mem _).mpr (.inr hosted)⟩
  · intro serial
    rw [used]
    exact recorded.storer serial
  · intro serial removed cleared
    rcases (mem _).mp cleared with same | earlier
    · cases same
    · exact (used serial).mpr (recorded.clearer serial removed earlier)
  · intro serial expiresAt hosted
    rcases (mem _).mp hosted with same | earlier
    · cases same
      exact .inl ⟨_, rfl, rfl⟩
    · rcases recorded.gone serial expiresAt earlier with ⟨pairing, slot, _⟩ | withdrawn |
        ⟨other, cleared⟩
      · rw [empty] at slot
        cases slot
      · exact .inr (.inl ((mem _).mpr (.inr withdrawn)))
      · exact .inr (.inr ⟨other, (mem _).mpr (.inr cleared)⟩)

variable {serial : Nat}

variable {joiner : Nat} {request : PairingRequest}

theorem recorded_store (recorded : Recorded host) {sharedSecret : String} (pairedAt : Stamp)
    {phase : HandshakePhase}
    (verified : host.handshakes joiner = .verified request serial sharedSecret)
    (storedOn : phase.storedOn = some serial) (letGo : phase.reliesOn = none) :
    Recorded ((host.withPeer request serial sharedSecret pairedAt).setPhase joiner phase) := by
  have mem : ∀ event, (∀ other deviceId clock, event ≠ .stored other deviceId clock) →
      (event ∈ ((host.withPeer request serial sharedSecret pairedAt).setPhase joiner phase).past ↔
        event ∈ host.past) := by
    intro event notStored
    exact (mem_cons.trans or_comm).trans (or_iff_left (notStored _ _ _))
  have used : ∀ other,
      ((host.withPeer request serial sharedSecret pairedAt).setPhase joiner phase).consumed other ↔
        serial = other ∨ host.consumed other := by
    intro other
    unfold consumed
    change List.any (.stored serial request.deviceId host.clock :: host.past)
      (PairingEvent.isStoreOn other) = true ↔ _
    simp [any_cons, PairingEvent.isStoreOn]
  refine ⟨?_, ?_, ?_, ?_, ?_, ?_, ?_, ?_, ?_, ?_⟩
  · intro pairing slot
    exact (mem _ (by simp)).mpr (recorded.slotHosted pairing slot)
  · intro pairing slot
    obtain ⟨notWithdrawn, notCleared⟩ := recorded.slotKept pairing slot
    exact ⟨fun withdrawn => notWithdrawn ((mem _ (by simp)).mp withdrawn),
      fun other cleared => notCleared other ((mem _ (by simp)).mp cleared)⟩
  · intro other expiresAt otherExpiry hosted otherHosted
    exact recorded.expiry other expiresAt otherExpiry ((mem _ (by simp)).mp hosted)
      ((mem _ (by simp)).mp otherHosted)
  · intro other expiresAt hosted
    exact recorded.hostedBelow other expiresAt ((mem _ (by simp)).mp hosted)
  · intro other withdrawn
    exact recorded.withdrawnBelow other ((mem _ (by simp)).mp withdrawn)
  · intro other removed cleared
    exact recorded.clearedBelow other removed ((mem _ (by simp)).mp cleared)
  · intro other otherSerial relies
    rw [handshakes_setPhase] at relies
    split at relies
    · rw [letGo] at relies
      cases relies
    · obtain ⟨expiresAt, hosted⟩ := recorded.relied other otherSerial relies
      exact ⟨expiresAt, (mem _ (by simp)).mpr hosted⟩
  · intro other
    rw [used, recorded.storer]
    constructor
    · rintro (rfl | ⟨storer, stored⟩)
      · exact ⟨joiner, by rw [handshakes_setPhase, if_pos rfl, storedOn]⟩
      · refine ⟨storer, ?_⟩
        rw [handshakes_setPhase, if_neg]
        · exact stored
        · -- The joiner itself had stored nothing before.
          rintro rfl
          rw [verified] at stored
          cases stored
    · rintro ⟨storer, stored⟩
      rw [handshakes_setPhase] at stored
      split at stored
      · rw [storedOn] at stored
        exact .inl (Option.some.inj stored)
      · exact .inr ⟨storer, stored⟩
  · intro other removed cleared
    exact (used other).mpr (.inr (recorded.clearer other removed ((mem _ (by simp)).mp cleared)))
  · intro other expiresAt hosted
    rcases recorded.gone other expiresAt ((mem _ (by simp)).mp hosted) with slot | withdrawn |
      ⟨clearer, cleared⟩
    · exact .inl slot
    · exact .inr (.inl ((mem _ (by simp)).mpr withdrawn))
    · exact .inr (.inr ⟨clearer, (mem _ (by simp)).mpr cleared⟩)

theorem recorded_clear (recorded : Recorded host)
    (stored : host.handshakes joiner = .stored request serial) :
    Recorded (host.clearCode joiner request serial) := by
  have mem : ∀ event, (∀ other removed, event ≠ .cleared other removed) →
      (event ∈ (host.clearCode joiner request serial).past ↔ event ∈ host.past) := by
    intro event notCleared
    exact (mem_cons.trans or_comm).trans (or_iff_left (notCleared _ _))
  have used : ∀ other, (host.clearCode joiner request serial).consumed other ↔
      host.consumed other := by
    intro other
    unfold consumed
    change List.any (.cleared serial (host.hosting.map HostingPairing.serial) :: host.past)
      (PairingEvent.isStoreOn other) = true ↔ _
    rw [any_cons]
    rfl
  have quiet := quiet_setPhase_of_none host joiner (.cleared request serial)
    (by rw [stored]; rfl) rfl
  have usedUp : host.consumed serial :=
    (recorded.storer serial).mpr ⟨joiner, by rw [stored]; rfl⟩
  refine ⟨?_, ?_, ?_, ?_, ?_, ?_, ?_, ?_, ?_, ?_⟩
  · intro pairing slot
    cases slot
  · intro pairing slot
    cases slot
  · intro other expiresAt otherExpiry hosted otherHosted
    exact recorded.expiry other expiresAt otherExpiry ((mem _ (by simp)).mp hosted)
      ((mem _ (by simp)).mp otherHosted)
  · intro other expiresAt hosted
    exact recorded.hostedBelow other expiresAt ((mem _ (by simp)).mp hosted)
  · intro other withdrawn
    exact recorded.withdrawnBelow other ((mem _ (by simp)).mp withdrawn)
  · intro other removed cleared
    rcases mem_cons.mp cleared with same | earlier
    · -- What the slot held was hosted.
      injection same with _ held
      obtain ⟨pairing, slot, rfl⟩ := Option.map_eq_some_iff.mp held.symm
      exact recorded.hostedBelow _ _ (recorded.slotHosted pairing slot)
    · exact recorded.clearedBelow other removed earlier
  · intro other otherSerial relies
    rcases quiet.reliesOn other otherSerial relies with relied | ⟨pairing, slot, rfl⟩
    · obtain ⟨expiresAt, hosted⟩ := recorded.relied other otherSerial relied
      exact ⟨expiresAt, (mem _ (by simp)).mpr hosted⟩
    · exact ⟨_, (mem _ (by simp)).mpr (recorded.slotHosted pairing slot)⟩
  · intro other
    rw [used, recorded.storer]
    exact exists_congr fun storer => by rw [← quiet.storedOn]; rfl
  · intro other removed cleared
    rw [used]
    rcases mem_cons.mp cleared with same | earlier
    · injection same with sameSerial
      rw [sameSerial]
      exact usedUp
    · exact recorded.clearer other removed earlier
  · intro other expiresAt hosted
    refine .inr ?_
    rcases recorded.gone other expiresAt ((mem _ (by simp)).mp hosted) with ⟨pairing, slot, rfl⟩ |
      withdrawn | ⟨clearer, cleared⟩
    · refine .inr ⟨serial, mem_cons.mpr (.inl ?_)⟩
      rw [slot]
      rfl
    · exact .inl ((mem _ (by simp)).mpr withdrawn)
    · exact .inr ⟨clearer, mem_cons_of_mem _ cleared⟩

theorem recorded_step (recorded : Recorded host) (stepped : host.step crypto action = some next) :
    Recorded next := by
  rcases stepEffect crypto stepped with quiet | code | _ |
    ⟨joiner, request, serial, sharedSecret, pairedAt, outcome, phase, verified, _, storedOn, letGo⟩ |
    ⟨joiner, request, serial, stored⟩
  · exact recorded_of_quiet recorded quiet
  · rw [← startHostingPairing_cancel]
    exact recorded_host (recorded_cancel recorded) rfl code
  · exact recorded_cancel recorded
  · exact recorded_store recorded pairedAt verified storedOn letGo
  · exact recorded_clear recorded stored

/-! ### The verdict on a run -/

/-- A store finds its code usable exactly when the slot still holds it. -/
theorem usable_iff_holds (recorded : Recorded host) (sound : OneCodeOneDevice host.past)
    (hosted : ∃ expiresAt, .hosted serial expiresAt ∈ host.past) :
    Usable serial host.clock host.past ↔ host.Holds serial := by
  obtain ⟨expiresAt, hosted⟩ := hosted
  have unused : host.past.any (PairingEvent.isStoreOn serial) = false ↔
      ∀ joiner, (host.handshakes joiner).storedOn ≠ some serial := by
    rw [← Bool.not_eq_true]
    exact (not_congr (recorded.storer serial)).trans not_exists
  constructor
  · intro usable
    refine ⟨?_, unused.mp usable.notConsumed⟩
    rcases recorded.gone serial expiresAt hosted with ⟨pairing, slot, same⟩ | withdrawn |
      ⟨other, cleared⟩
    · subst same
      refine ⟨pairing, slot, rfl, ?_⟩
      exact usable.notExpired _ (recorded.slotHosted pairing slot)
    · exact absurd withdrawn usable.notWithdrawn
    · -- Whoever emptied the slot of this hosting had stored a peer on it.
      obtain ⟨later, earlier, split⟩ := append_of_mem cleared
      have own := sound.ownCode later other serial earlier split
      subst own
      have used := recorded.clearer serial _ cleared
      rw [consumed, usable.notConsumed] at used
      cases used
  · rintro ⟨⟨pairing, slot, rfl, live⟩, nobody⟩
    refine ⟨(recorded.slotKept pairing slot).1, unused.mpr nobody, fun other otherHosted => ?_⟩
    rw [recorded.expiry _ other _ otherHosted (recorded.slotHosted pairing slot)]
    exact live

theorem oneCodeOneDevice_step (recorded : Recorded host)
    (stepped : host.step crypto action = some next) :
    OneCodeOneDevice next.past ↔ OneCodeOneDevice host.past ∧ host.Undisturbed action := by
  have withdraw : OneCodeOneDevice host.withdraw ↔ OneCodeOneDevice host.past := by
    unfold PairingHost.withdraw
    split
    · rfl
    · rw [oneCodeOneDevice_cons]
      exact and_iff_left trivial
  rcases stepEffect crypto stepped with ⟨quiet, undisturbed⟩ | code | _ |
    ⟨joiner, request, serial, sharedSecret, pairedAt, outcome, phase, verified, written, _, _⟩ |
    ⟨joiner, request, serial, stored⟩
  · rw [quiet.past]
    exact (and_iff_left undisturbed).symm
  · change OneCodeOneDevice (_ :: host.withdraw) ↔ _
    rw [oneCodeOneDevice_cons, withdraw]
    exact Iff.rfl
  · change OneCodeOneDevice host.withdraw ↔ _
    rw [withdraw]
    exact (and_iff_left trivial).symm
  · change OneCodeOneDevice (_ :: host.past) ↔ _
    rw [oneCodeOneDevice_cons]
    refine and_congr_right fun sound => ?_
    have relies : (host.handshakes joiner).reliesOn = some serial := by rw [verified]; rfl
    refine (usable_iff_holds recorded sound (recorded.relied joiner serial relies)).trans ?_
    constructor
    · intro holds _ other otherRelies
      rw [relies] at otherRelies
      cases otherRelies
      exact holds
    · intro undisturbed
      exact undisturbed written serial relies
  · change OneCodeOneDevice (_ :: host.past) ↔ _
    rw [oneCodeOneDevice_cons]
    refine and_congr_right fun _ => ?_
    have storedOn : (host.handshakes joiner).storedOn = some serial := by rw [stored]; rfl
    constructor
    · intro passes other otherStored pairing slot
      rw [storedOn] at otherStored
      cases otherStored
      exact passes _ (by rw [slot]; rfl)
    · intro undisturbed other held
      obtain ⟨pairing, slot, rfl⟩ := Option.map_eq_some_iff.mp held
      exact undisturbed serial storedOn pairing slot

end PairingHost

/-- One code lets in one device, and only while it is hosted, exactly in the runs in which every
peer is stored, and every slot emptied, while the slot is still the handshake's own. -/
theorem oneCodeOneDevice_iff_undisturbed (crypto : PairingCrypto) (vault : VaultStore)
    (actions : List PairingAction) (host : PairingHost)
    (ran : (pairingMachine crypto).run (PairingHost.fresh vault) actions = some host) :
    OneCodeOneDevice host.past ↔
      (pairingMachine crypto).Along PairingHost.Undisturbed (PairingHost.fresh vault) actions := by
  have kept : ∀ state action next, PairingHost.Recorded state →
      (pairingMachine crypto).step state action = some next → PairingHost.Recorded next :=
    fun _ _ _ recorded stepped => PairingHost.recorded_step crypto recorded stepped
  have judged : ∀ state action next, PairingHost.Recorded state →
      (pairingMachine crypto).step state action = some next →
      (OneCodeOneDevice next.past ↔ OneCodeOneDevice state.past ∧ state.Undisturbed action) :=
    fun _ _ _ recorded stepped => PairingHost.oneCodeOneDevice_step crypto recorded stepped
  exact (Machine.verdict_iff_along kept judged (PairingHost.recorded_fresh vault) ran).trans
    (and_iff_right oneCodeOneDevice_nil)

/-! ### A code that is used as meant, and three that are not -/

/-- Signatures that name their key and what they sign. -/
def PairingCrypto.symbolic : PairingCrypto where
  verifyEd25519 publicKey challenge signed := signed == publicKey ++ " signs " ++ challenge
  x25519Dh hostSecret joinerPub := hostSecret ++ String.join (joinerPub.map toString)

/-- A device that knows the code. -/
def joinerRequest (joiner : Nat) : PairingRequest where
  deviceId := joiner
  deviceName := "joiner"
  publicKey := "key"
  pairingCode := "123456"
  x25519Pub := List.replicate 32 7
  peerEndpoint := some ("10.0.0.2", 4433)

/-- A handshake up to the verified response. -/
def letThrough (joiner : Nat) : List PairingAction :=
  [.receive joiner (joinerRequest joiner), .checkCap joiner, .checkCode joiner,
    .challenge joiner "nonce" false, .respond joiner "key signs nonce" "ephemeral"]

def peerWritten (joiner : Nat) : List PairingAction :=
  [.storePeer joiner 0 .saved, .clearCode joiner]

/-- A run of a fresh host. -/
def hostAfter (actions : List PairingAction) : Option PairingHost :=
  (pairingMachine PairingCrypto.symbolic).run (PairingHost.fresh (VaultStore.empty false true))
    actions

/-- A code that lets one device in, and is then hosted anew, is used as meant. -/
theorem undisturbed_hostedAgain :
    (pairingMachine PairingCrypto.symbolic).Along PairingHost.Undisturbed
      (PairingHost.fresh (VaultStore.empty false true))
      ([.startHosting "123456"] ++ letThrough 1 ++ peerWritten 1 ++ [.startHosting "123456"]) := by
  refine (oneCodeOneDevice_iff_undisturbed PairingCrypto.symbolic (VaultStore.empty false true) _ _
    rfl).mp ?_
  refine (oneCodeOneDevice_cons (.hosted 1 pairingCodeTtl) _).mpr ⟨?_, trivial⟩
  refine (oneCodeOneDevice_cons (.cleared 0 (some 0)) _).mpr ⟨?_, ?_⟩
  · refine (oneCodeOneDevice_cons (.stored 0 1 0) _).mpr ⟨?_, ?_⟩
    · exact (oneCodeOneDevice_cons (.hosted 0 pairingCodeTtl) []).mpr ⟨oneCodeOneDevice_nil, trivial⟩
    · refine ⟨by decide, rfl, fun expiresAt hosted => ?_⟩
      cases mem_singleton.mp hosted
      decide
  · rintro other same
    exact (Option.some.inj same).symm

/-- Two joiners are let through before either is stored, and one code pairs both. A code cancelled,
or expired, after the check pairs all the same. A code hosted while a peer is being stored is
emptied out of the slot with the old one. -/
theorem not_oneCodeOneDevice :
    (∃ host, hostAfter ([.startHosting "123456"] ++ letThrough 1 ++ letThrough 2 ++ peerWritten 1 ++
        peerWritten 2) = some host ∧ ¬ OneCodeOneDevice host.past) ∧
      (∃ host, hostAfter ([.startHosting "123456"] ++ letThrough 1 ++ [.cancelHosting] ++
        peerWritten 1) = some host ∧ ¬ OneCodeOneDevice host.past) ∧
      (∃ host, hostAfter ([.startHosting "123456"] ++ letThrough 1 ++ [.elapse pairingCodeTtl] ++
        peerWritten 1) = some host ∧ ¬ OneCodeOneDevice host.past) ∧
      ∃ host, hostAfter ([.startHosting "123456"] ++ letThrough 1 ++ [.storePeer 1 0 .saved,
        .startHosting "654321", .clearCode 1]) = some host ∧ ¬ OneCodeOneDevice host.past := by
  refine ⟨⟨_, rfl, fun sound => ?_⟩, ⟨_, rfl, fun sound => ?_⟩, ⟨_, rfl, fun sound => ?_⟩,
    ⟨_, rfl, fun sound => ?_⟩⟩
  · exact absurd (sound.atMostOne 0) (by decide)
  · exact (sound.usable [_] 0 1 0 _ rfl).notWithdrawn (by decide)
  · exact absurd ((sound.usable [_] 0 1 pairingCodeTtl _ rfl).notExpired pairingCodeTtl (by decide))
      (Nat.lt_irrefl _)
  · exact absurd (sound.ownCode [] 0 1 _ rfl) (by decide)

end Oryxis

/-
This file is about the cap on the attempts at a hosted code: that a source which has tried
enough wrong codes gets no further answer about the code that is hosted.

The attempts of all sources are counted in one table of bounded size. Counting one failure
too many drops the counts of everybody, and a source that was turned away is let in again.
Short of that, and of a new code, no step of any other source lowers a count, so the source
stays turned away: at the gate while the code is in the slot, and at the code check once the
slot is empty.
-/

import Oryxis.Sync.SingleCode

namespace Oryxis

open Library List

/-! ### The property -/

namespace HandshakePhase

/-- No step of the handshake has read the attempts yet. -/
def awaitsGate : HandshakePhase → Bool
  | .idle | .received _ => true
  | _ => false

/-- The request of a handshake that the code was compared for. -/
def compared : HandshakePhase → Option PairingRequest
  | .wrongCode request | .codeMatched request _ | .challenged request _ _
  | .badResponse request | .verified request _ _ | .stored request _ | .cleared request _
  | .endpointFailed request _ => some request
  | _ => none

end HandshakePhase

namespace PairingHost

/-- A source's wrong code is counted. -/
def countsWrongCode (source : String) (host : PairingHost) : PairingAction → Bool
  | .countFailure joiner =>
    match host.handshakes joiner with
    | .wrongCode request => request.source = source
    | _ => false
  | _ => false

/-- How many wrong codes of a source are counted along a run. -/
def wrongCodes (crypto : PairingCrypto) (source : String) :
    PairingHost → List PairingAction → Nat
  | _, [] => 0
  | host, action :: actions =>
    (if host.countsWrongCode source action then 1 else 0) +
      match host.step crypto action with
      | none => 0
      | some next => wrongCodes crypto source next actions

/-- The step hosts no new code. -/
def SameCode : PairingAction → Prop
  | .startHosting _ => False
  | _ => True

/-- No failure is counted while as many sources are tracked as ever are. -/
def KeepsAttempts (host : PairingHost) : PairingAction → Prop
  | .countFailure joiner =>
    match host.handshakes joiner with
    | .wrongCode _ | .badResponse _ =>
      ∀ pairing, host.hosting = some pairing →
        pairing.attemptsBySource.rows.length < maxPairingSources
    | _ => True
  | _ => True

/-- A handshake of the source, if it is one, is refused or has not been answered. It gets past the
gate only where no code is hosted. -/
structure TurnsAway (source : String) (joiner : Nat) (host : PairingHost) : Prop where
  notCompared : ∀ request, (host.handshakes joiner).compared = some request →
    request.source ≠ source
  gate : ∀ request, host.handshakes joiner = .belowCap request → request.source = source →
    host.hosting = none

/-- Once enough wrong codes of a source are counted, every handshake of that source which comes to
the gate later is turned away until a new code is hosted, as long as every step is one of those
that `keeps` allows. -/
def CapsAttempts (crypto : PairingCrypto) (keeps : PairingHost → PairingAction → Prop) : Prop :=
  ∀ vault earlier start attempts middle later final source joiner,
    (pairingMachine crypto).run (fresh vault) earlier = some start →
    (pairingMachine crypto).run start attempts = some middle →
    (pairingMachine crypto).run middle later = some final →
    (pairingMachine crypto).Along (fun host action => SameCode action ∧ keeps host action)
      start attempts →
    (pairingMachine crypto).Along (fun host action => SameCode action ∧ keeps host action)
      middle later →
    maxPairingAttempts ≤ wrongCodes crypto source start attempts →
    (middle.handshakes joiner).awaitsGate = true →
    TurnsAway source joiner final

/-! ### What a step does to the attempts -/

theorem attempts_recordFailure (pairing : HostingPairing) (counted source : String)
    (room : pairing.attemptsBySource.rows.length < maxPairingSources) :
    (pairing.recordFailure counted).1.attempts source =
      if source = counted then min (pairing.attempts counted + 1) (2 ^ 32 - 1)
      else pairing.attempts source := by
  have tracked : pairing.tracked = pairing.attemptsBySource := if_neg (Nat.not_le.mpr room)
  simp only [HostingPairing.recordFailure, HostingPairing.attempts, tracked]
  rw [Table.get?_insertOrReplace_of_null _ _ _ rfl]
  split <;> rfl

/-- What a step makes of the slot. -/
inductive SlotStep (host : PairingHost) : PairingAction → PairingHost → Prop where
  | kept {action next} (same : next.hosting = host.hosting)
      (uncounted : ∀ source, host.countsWrongCode source action = true → host.hosting = none) :
    SlotStep host action next
  | emptied {action next} (empty : next.hosting = none) : SlotStep host action next
  | hosted (code : String) {next} : SlotStep host (.startHosting code) next
  | counted (joiner : Nat) (request : PairingRequest) (pairing : HostingPairing) {next}
      (phase : host.handshakes joiner = .wrongCode request ∨
        host.handshakes joiner = .badResponse request)
      (hosted : host.hosting = some pairing)
      (after : next.hosting = some (pairing.recordFailure request.source).1) :
    SlotStep host (.countFailure joiner) next

variable {host : PairingHost} {joiner : Nat} {request : PairingRequest}

theorem slotStep_countFailure (phase : host.handshakes joiner = .wrongCode request ∨
      host.handshakes joiner = .badResponse request) (reason : String) :
    SlotStep host (.countFailure joiner) (host.countFailure joiner request reason) := by
  unfold countFailure
  split
  · rename_i empty
    exact .kept (by rw [setPhase, empty]) fun _ _ => empty
  · rename_i pairing hosted
    exact .counted joiner request pairing phase hosted rfl

variable {action : PairingAction}

variable (crypto : PairingCrypto)

theorem slotStep {next : PairingHost} (stepped : host.step crypto action = some next) :
    SlotStep host action next := by
  have never : ∀ _ : String, false = true → host.hosting = none := fun _ impossible => by
    cases impossible
  cases action with
  | startHosting code => exact .hosted code
  | cancelHosting =>
    cases stepped
    exact .emptied rfl
  | elapse ticks =>
    cases stepped
    exact .kept rfl never
  | receive joiner request =>
    simp only [step] at stepped
    split at stepped <;> cases stepped
    exact .kept rfl never
  | checkCap joiner =>
    simp only [step] at stepped
    split at stepped <;> cases stepped
    exact .kept rfl never
  | checkCode joiner =>
    simp only [step] at stepped
    split at stepped <;> cases stepped
    exact .kept rfl never
  | countFailure joiner =>
    simp only [step] at stepped
    split at stepped <;> cases stepped
    · rename_i request phase
      exact slotStep_countFailure (.inl phase) _
    · rename_i request phase
      exact slotStep_countFailure (.inr phase) _
  | challenge joiner challenge pairedElsewhere =>
    simp only [step] at stepped
    split at stepped
    · split at stepped <;> cases stepped <;> exact .kept rfl never
    · cases stepped
  | respond joiner signed hostSecret =>
    simp only [step] at stepped
    split at stepped <;> cases stepped
    exact .kept rfl never
  | storePeer joiner pairedAt outcome =>
    simp only [step, storePeer] at stepped
    split at stepped
    · split at stepped
      · cases stepped
        exact .kept rfl never
      · cases stepped
        exact .kept rfl never
      · split at stepped <;> cases stepped
        exact .kept rfl never
    · cases stepped
  | clearCode joiner =>
    simp only [step] at stepped
    split at stepped <;> cases stepped
    exact .emptied rfl
  | loseConnection joiner =>
    simp only [step] at stepped
    split at stepped <;> cases stepped <;> exact .kept rfl never

/-- The wrong codes of a source are on its count, as far as the cap needs them. -/
def Counted (source : String) (count : Nat) (host : PairingHost) : Prop :=
  ∀ pairing, host.hosting = some pairing →
    min count maxPairingAttempts ≤ pairing.attempts source

variable {source : String}

variable {count : Nat}

theorem counted_step {next : PairingHost} (counted : Counted source count host)
    (sameCode : SameCode action) (keeps : host.KeepsAttempts action)
    (stepped : host.step crypto action = some next) :
    Counted source (count + if host.countsWrongCode source action then 1 else 0) next := by
  intro pairing hosted
  cases slotStep crypto stepped with
  | kept same uncounted =>
    rw [same] at hosted
    have none : host.countsWrongCode source action ≠ true := fun counts => by
      rw [uncounted source counts] at hosted
      cases hosted
    rw [if_neg none]
    exact counted pairing hosted
  | emptied empty =>
    rw [empty] at hosted
    cases hosted
  | hosted code => exact sameCode.elim
  | counted joiner request earlier phase hostedBefore after =>
    rw [after] at hosted
    cases hosted
    have room : earlier.attemptsBySource.rows.length < maxPairingSources := by
      rcases phase with phase | phase
      · simp only [KeepsAttempts, phase] at keeps
        exact keeps earlier hostedBefore
      · simp only [KeepsAttempts, phase] at keeps
        exact keeps earlier hostedBefore
    have before := counted earlier hostedBefore
    rw [attempts_recordFailure _ _ _ room]
    by_cases isSource : source = request.source
    · rw [if_pos isSource]
      subst isSource
      have cap : maxPairingAttempts = 3 := rfl
      split <;> omega
    · rw [if_neg isSource]
      have uncounted : host.countsWrongCode source (.countFailure joiner) ≠ true := by
        rcases phase with phase | phase
        · have different : request.source ≠ source := Ne.symm isSource
          simp [countsWrongCode, phase, different]
        · simp [countsWrongCode, phase]
      rw [if_neg uncounted]
      exact before

variable {start : PairingHost}

theorem counted_run {final : PairingHost} {actions : List PairingAction}
    (counted : Counted source count start) (along : (pairingMachine crypto).Along
      (fun host action => SameCode action ∧ host.KeepsAttempts action) start actions)
    (ran : (pairingMachine crypto).run start actions = some final) :
    Counted source (count + wrongCodes crypto source start actions) final := by
  induction actions generalizing start count with
  | nil =>
    cases ran
    exact counted
  | cons action actions inductionHypothesis =>
    obtain ⟨next, stepped, rest⟩ := Machine.run_cons_eq_some.mp ran
    obtain ⟨⟨sameCode, keeps⟩, later⟩ := (Machine.along_cons_of_step stepped).mp along
    have one : start.step crypto action = some next := stepped
    have onward := inductionHypothesis (counted_step crypto counted sameCode keeps one) later rest
    rw [wrongCodes, one, ← Nat.add_assoc]
    exact onward

/-! ### What a step does to a handshake -/

/-- What a step makes of a handshake: only the gate lets it below the cap, and only the code check
compares the code for it. -/
inductive PhaseStep (host next : PairingHost) (joiner : Nat) : Prop where
  | unchanged (same : next.handshakes joiner = host.handshakes joiner)
  | gate (request : PairingRequest) (after : next.handshakes joiner = .belowCap request)
      (below : ∀ pairing, host.hosting = some pairing →
        pairing.attempts request.source < maxPairingAttempts)
  | compared (request : PairingRequest) (before : host.handshakes joiner = .belowCap request)
      (hosted : host.hosting ≠ none) (after : (next.handshakes joiner).compared = some request)
      (notBelow : ∀ other, next.handshakes joiner ≠ .belowCap other)
  | onward (after : ∀ request, (next.handshakes joiner).compared = some request →
        (host.handshakes joiner).compared = some request)
      (notBelow : ∀ request, next.handshakes joiner ≠ .belowCap request)

variable {acting : Nat}

variable {phase : HandshakePhase}

theorem phaseStep_of_acting {next : PairingHost}
    (updated : next.handshakes = Function.update host.handshakes acting phase)
    (acts : next.handshakes acting = phase → PhaseStep host next acting) (joiner : Nat) :
    PhaseStep host next joiner := by
  by_cases isActing : joiner = acting
  · subst isActing
    exact acts (by rw [updated, Function.update_self])
  · exact .unchanged (by rw [updated, Function.update_of_ne isActing])

/-- A handshake that is ended, or that goes on with the request it was compared for. -/
theorem phaseStep_of_onward {next : PairingHost}
    (updated : next.handshakes = Function.update host.handshakes acting phase)
    (after : ∀ request, phase.compared = some request →
      (host.handshakes acting).compared = some request)
    (notBelow : ∀ request, phase ≠ .belowCap request) (joiner : Nat) :
    PhaseStep host next joiner :=
  phaseStep_of_acting updated
    (fun isPhase => .onward (by rw [isPhase]; exact after) (by rw [isPhase]; exact notBelow)) joiner

theorem phaseStep_checkCap (joiner : Nat) :
    PhaseStep host (host.checkCap acting request) joiner := by
  refine phaseStep_of_acting rfl (fun isPhase => ?_) joiner
  split at isPhase
  · refine .onward (fun other compared => ?_) fun other below => ?_
    · rw [isPhase] at compared
      cases compared
    · rw [isPhase] at below
      cases below
  · rename_i belowCap
    refine .gate request isPhase fun pairing hosted => ?_
    rw [hosted] at belowCap
    exact Nat.not_le.mp belowCap

theorem phaseStep_checkCode (before : host.handshakes acting = .belowCap request) (joiner : Nat) :
    PhaseStep host (host.checkCode acting request) joiner := by
  refine phaseStep_of_acting rfl (fun isPhase => ?_) joiner
  split at isPhase
  · refine .onward (fun other compared => ?_) fun other below => ?_
    · rw [isPhase] at compared
      cases compared
    · rw [isPhase] at below
      cases below
  · rename_i pairing live
    have hosted : host.hosting ≠ none := fun empty => by
      rw [empty] at live
      cases live
    split at isPhase
    · exact .compared request before hosted (by rw [isPhase]; rfl) (by rw [isPhase]; simp)
    · exact .compared request before hosted (by rw [isPhase]; rfl) (by rw [isPhase]; simp)

theorem phaseStep_countFailure {reason : String} (joiner : Nat) :
    PhaseStep host (host.countFailure acting request reason) joiner := by
  unfold countFailure
  split
  · exact phaseStep_of_onward rfl (fun _ compared => by cases compared) (fun _ => by simp) joiner
  · exact phaseStep_of_onward rfl (fun _ compared => by cases compared) (fun _ => by simp) joiner

theorem phaseStep {next : PairingHost} (stepped : host.step crypto action = some next)
    (joiner : Nat) :
    PhaseStep host next joiner := by
  cases action with
  | startHosting code =>
    cases stepped
    exact .unchanged rfl
  | cancelHosting =>
    cases stepped
    exact .unchanged rfl
  | elapse ticks =>
    cases stepped
    exact .unchanged rfl
  | receive acting request =>
    simp only [step] at stepped
    split at stepped <;> cases stepped
    exact phaseStep_of_onward rfl (fun _ compared => by cases compared) (fun _ => by simp) joiner
  | checkCap acting =>
    simp only [step] at stepped
    split at stepped <;> cases stepped
    exact phaseStep_checkCap joiner
  | checkCode acting =>
    simp only [step] at stepped
    split at stepped <;> cases stepped
    rename_i request phase
    exact phaseStep_checkCode phase joiner
  | countFailure acting =>
    simp only [step] at stepped
    split at stepped <;> cases stepped
    · exact phaseStep_countFailure joiner
    · exact phaseStep_countFailure joiner
  | challenge acting challenge pairedElsewhere =>
    simp only [step] at stepped
    split at stepped
    · rename_i request serial phase
      split at stepped <;> cases stepped
      · exact phaseStep_of_onward rfl (fun _ compared => by cases compared) (fun _ => by simp)
          joiner
      · refine phaseStep_of_onward rfl (fun _ compared => ?_) (fun _ => by simp) joiner
        rw [phase]
        exact compared
    · cases stepped
  | respond acting signed hostSecret =>
    simp only [step] at stepped
    split at stepped <;> cases stepped
    rename_i request serial challenge phase
    refine phaseStep_of_onward rfl ?_ ?_ joiner
    · intro other compared
      rw [phase]
      split at compared
      · split at compared
        · exact compared
        · cases compared
      · exact compared
    · intro other
      split
      · split <;> simp
      · simp
  | storePeer acting pairedAt outcome =>
    simp only [step, storePeer] at stepped
    split at stepped
    · rename_i request serial sharedSecret phase
      split at stepped
      · cases stepped
        exact phaseStep_of_onward rfl (fun _ compared => by cases compared) (fun _ => by simp)
          joiner
      · cases stepped
        refine phaseStep_of_onward rfl (fun _ compared => ?_) (fun _ => by simp) joiner
        rw [phase]
        exact compared
      · split at stepped <;> cases stepped
        refine phaseStep_of_onward rfl (fun _ compared => ?_) (fun _ => by simp) joiner
        rw [phase]
        exact compared
    · cases stepped
  | clearCode acting =>
    simp only [step] at stepped
    split at stepped <;> cases stepped
    rename_i request serial phase
    refine phaseStep_of_onward rfl (fun _ compared => ?_) (fun _ => by simp) joiner
    rw [phase]
    exact compared
  | loseConnection acting =>
    simp only [step] at stepped
    split at stepped <;> cases stepped <;>
      exact phaseStep_of_onward rfl (fun _ compared => by cases compared) (fun _ => by simp) joiner

/-! ### The cap -/

theorem hosting_of_sameCode {next : PairingHost} (sameCode : SameCode action)
    (stepped : host.step crypto action = some next) (empty : host.hosting = none) :
    next.hosting = none := by
  cases slotStep crypto stepped with
  | kept same => rw [same, empty]
  | emptied after => exact after
  | hosted code => exact sameCode.elim
  | counted joiner request pairing phase hosted =>
    rw [empty] at hosted
    cases hosted

theorem turnsAway_step {next : PairingHost} (counted : Counted source maxPairingAttempts host)
    (turnsAway : TurnsAway source joiner host) (sameCode : SameCode action)
    (stepped : host.step crypto action = some next) :
    TurnsAway source joiner next := by
  cases phaseStep crypto stepped joiner with
  | unchanged same =>
    refine ⟨?_, fun request below isSource => ?_⟩
    · rw [same]
      exact turnsAway.notCompared
    · rw [same] at below
      exact hosting_of_sameCode crypto sameCode stepped (turnsAway.gate request below isSource)
  | gate request after below =>
    refine ⟨fun other compared => ?_, fun other passed isSource => ?_⟩
    · rw [after] at compared
      cases compared
    · rw [after] at passed
      cases passed
      refine hosting_of_sameCode crypto sameCode stepped ?_
      by_contra notEmpty
      obtain ⟨pairing, hosted⟩ := Option.ne_none_iff_exists'.mp notEmpty
      have reached := counted pairing hosted
      have room := below pairing hosted
      rw [isSource] at room
      rw [Nat.min_self] at reached
      omega
  | compared request before hosted after notBelow =>
    refine ⟨fun other compared isSource => ?_, fun other below => absurd below (notBelow other)⟩
    rw [after] at compared
    cases compared
    exact hosted (turnsAway.gate request before isSource)
  | onward after notBelow =>
    exact ⟨fun request compared => turnsAway.notCompared request (after request compared),
      fun request below => absurd below (notBelow request)⟩

theorem turnsAway_of_awaitsGate (awaits : (host.handshakes joiner).awaitsGate = true)
    (source : String) :
    TurnsAway source joiner host := by
  constructor
  · intro request compared
    have none : (host.handshakes joiner).compared = none := by
      cases phase : host.handshakes joiner <;> rw [phase] at awaits <;>
        first | rfl | cases awaits
    rw [none] at compared
    cases compared
  · intro request below
    rw [below] at awaits
    cases awaits

/-- The cap holds as long as no failure is counted while as many sources are tracked as ever are. -/
theorem capsAttempts_keepsAttempts (crypto : PairingCrypto) :
    CapsAttempts crypto KeepsAttempts := by
  intro vault earlier start attempts middle later final source joiner reached tried ran
    alongAttempts alongLater capped awaits
  have counted : Counted source maxPairingAttempts middle := by
    have untried : Counted source 0 start := fun pairing _ => by
      rw [Nat.zero_min]
      exact Nat.zero_le _
    have tally := counted_run crypto untried alongAttempts tried
    intro pairing hosted
    have reachedCap := tally pairing hosted
    rw [Nat.min_self]
    omega
  have kept : ∀ host action next,
      Counted source maxPairingAttempts host ∧ TurnsAway source joiner host →
      SameCode action ∧ host.KeepsAttempts action →
      (pairingMachine crypto).step host action = some next →
      Counted source maxPairingAttempts next ∧ TurnsAway source joiner next := by
    rintro host action next ⟨tally, turnsAway⟩ ⟨sameCode, keeps⟩ stepped
    refine ⟨fun pairing hosted => ?_, turnsAway_step crypto tally turnsAway sameCode stepped⟩
    have onward := counted_step crypto tally sameCode keeps stepped pairing hosted
    omega
  have start := turnsAway_of_awaitsGate awaits source
  exact (Machine.invariant kept ⟨counted, start⟩ alongLater ran).2

/-! ### A flood of sources -/

/-- A request that comes through the relay. -/
def relayedRequest (device : Uuid) (code : String) : PairingRequest where
  deviceId := device
  deviceName := "joiner"
  publicKey := "key"
  pairingCode := code
  x25519Pub := List.replicate 32 7
  peerEndpoint := none

/-- A whole attempt with a wrong code. -/
def wrongAttempt (joiner : Nat) (device : Uuid) : List PairingAction :=
  [.receive joiner (relayedRequest device "000000"), .checkCap joiner, .checkCode joiner,
    .countFailure joiner]

/-- One wrong attempt of each of as many devices. -/
def flood (devices : Nat) : List PairingAction :=
  (List.range devices).flatMap fun number => wrongAttempt (number + 3) (number + 1)

/-- The first device's wrong attempts. -/
def guesses : List PairingAction := wrongAttempt 0 0 ++ wrongAttempt 1 0 ++ wrongAttempt 2 0

/-- The first device comes back, with the code. -/
def comesBack (joiner : Nat) : List PairingAction :=
  [.receive joiner (relayedRequest 0 "123456"), .checkCap joiner, .checkCode joiner]

variable {device : Uuid}

theorem source_relayedRequest_inj {other : Uuid} {code otherCode : String}
    (same : (relayedRequest device code).source = (relayedRequest other otherCode).source) :
    device = other := by
  have letters : ("relay:" ++ toString device).toList = ("relay:" ++ toString other).toList :=
    congrArg String.toList same
  rw [String.toList_append, String.toList_append] at letters
  have digits : Nat.toDigits 10 device = Nat.toDigits 10 other := by
    have suffixes := append_cancel_left letters
    simpa only [Nat.toString_eq_repr, Nat.repr_eq_ofList_toDigits, String.toList_ofList]
      using suffixes
  have read := congrArg (fun digits => Nat.ofDigitChars 10 digits 0) digits
  simpa using read

/-- A handshake that is let through the gate. -/
def atGate (host : PairingHost) (joiner : Nat) (request : PairingRequest) : PairingHost :=
  (host.setPhase joiner (.received request)).setPhase joiner (.belowCap request)

variable {pairing : HostingPairing}

theorem atGate_run (idle : host.handshakes joiner = .idle) (hosted : host.hosting = some pairing)
    (below : pairing.attempts request.source < maxPairingAttempts) :
    (pairingMachine crypto).run host [.receive joiner request, .checkCap joiner] =
      some (host.atGate joiner request) := by
  let received := host.setPhase joiner (.received request)
  have atReceived : host.step crypto (.receive joiner request) = some received := by
    simp only [step, idle]
    rfl
  have atPassed : received.step crypto (.checkCap joiner) = some (host.atGate joiner request) := by
    have phase : received.handshakes joiner = .received request := Function.update_self ..
    have slot : received.hosting = some pairing := hosted
    have notOver : ¬ maxPairingAttempts ≤ pairing.attempts request.source := Nat.not_le.mpr below
    simp only [step, phase, checkCap, slot, Option.map_some, Option.getD_some, if_neg notOver]
    rfl
  exact Machine.run_cons_eq_some.mpr ⟨received, atReceived,
    Machine.run_cons_eq_some.mpr ⟨_, atPassed, rfl⟩⟩

/-- What the code check finds out about it. -/
theorem atGate_checkCode (hosted : host.hosting = some pairing)
    (live : pairing.isLive host.clock = true) :
    (host.atGate joiner request).step crypto (.checkCode joiner) =
      some ((host.atGate joiner request).setPhase joiner
        (if pairing.code = request.pairingCode then .codeMatched request pairing.serial
          else .wrongCode request)) := by
  have phase : (host.atGate joiner request).handshakes joiner = .belowCap request :=
    Function.update_self ..
  have slot : (host.atGate joiner request).hosting.filter
      (fun pairing => pairing.isLive (host.atGate joiner request).clock) = some pairing := by
    rw [Option.filter_eq_some_iff]
    exact ⟨hosted, live⟩
  simp only [step, phase, checkCode, slot]

theorem handshakes_countFailure (host : PairingHost) {other : Nat} (request : PairingRequest)
    (reason : String) (apart : other ≠ joiner) :
    (host.countFailure joiner request reason).handshakes other = host.handshakes other := by
  unfold countFailure
  split <;> simp only [handshakes_setPhase, if_neg apart]

/-- An attempt that is let through the gate with a wrong code is counted. -/
theorem wrongAttempt_run (idle : host.handshakes joiner = .idle)
    (hosted : host.hosting = some pairing) (live : pairing.isLive host.clock = true)
    (different : pairing.code ≠ "000000")
    (below : pairing.attempts (relayedRequest device "000000").source < maxPairingAttempts) :
    ∃ next, (pairingMachine crypto).run host (wrongAttempt joiner device) = some next ∧
      next.hosting = some (pairing.recordFailure (relayedRequest device "000000").source).1 ∧
      next.clock = host.clock ∧
      ∀ other, other ≠ joiner → next.handshakes other = host.handshakes other := by
  let request := relayedRequest device "000000"
  let found := (host.atGate joiner request).setPhase joiner (.wrongCode request)
  have atFound : (host.atGate joiner request).step crypto (.checkCode joiner) = some found := by
    have wrong : ¬ pairing.code = request.pairingCode := different
    rw [atGate_checkCode crypto hosted live, if_neg wrong]
  have atCounted : found.step crypto (.countFailure joiner) =
      some (found.countFailure joiner request "Wrong pairing code") := by
    have phase : found.handshakes joiner = .wrongCode request := Function.update_self ..
    simp only [step, phase]
  have slot : found.hosting = some pairing := hosted
  refine ⟨found.countFailure joiner request "Wrong pairing code",
    Machine.run_append (atGate_run crypto idle hosted below)
      (Machine.run_cons_eq_some.mpr ⟨found, atFound,
        Machine.run_cons_eq_some.mpr ⟨_, atCounted, rfl⟩⟩), ?_, ?_, ?_⟩
  · simp only [countFailure, slot]
    rfl
  · simp only [countFailure, slot]
    rfl
  · intro other apart
    rw [handshakes_countFailure _ _ _ apart]
    simp only [handshakes_setPhase, if_neg apart, found, atGate]

/-- The host once as many devices as that have failed, beside the first one. -/
structure Flooded (devices : Nat) (host : PairingHost) (pairing : HostingPairing) : Prop where
  hosted : host.hosting = some pairing
  code : pairing.code = "123456"
  live : pairing.isLive host.clock = true
  tracked : pairing.attemptsBySource.rows.length = devices + 1
  sources : ∀ row ∈ pairing.attemptsBySource.rows,
    ∃ device : Nat, device ≤ devices ∧ row.source = (relayedRequest device "000000").source
  idle : ∀ joiner, devices + 3 ≤ joiner → host.handshakes joiner = .idle

theorem attempts_of_untracked
    (untracked : ∀ row ∈ pairing.attemptsBySource.rows, row.source ≠ source) :
    pairing.attempts source = 0 := by
  rw [HostingPairing.attempts, (Table.get?_eq_none_iff _ _).mpr untracked]
  rfl

variable {devices : Nat}

/-- Another device is not tracked yet. -/
theorem Flooded.untracked (flooded : Flooded devices host pairing) :
    ∀ row ∈ pairing.attemptsBySource.rows,
      row.source ≠ (relayedRequest (devices + 1) "000000").source := by
  intro row member same
  obtain ⟨device, within, source⟩ := flooded.sources row member
  have isDevice : device = devices + 1 := source_relayedRequest_inj (source.symm.trans same)
  omega

/-- The next device's attempt is let through and counted. -/
theorem Flooded.attempt (flooded : Flooded devices host pairing) :
    ∃ next,
      (pairingMachine crypto).run host (wrongAttempt (devices + 3) (devices + 1)) = some next ∧
      next.hosting =
        some (pairing.recordFailure (relayedRequest (devices + 1) "000000").source).1 ∧
      next.clock = host.clock ∧
      ∀ other, other ≠ devices + 3 → next.handshakes other = host.handshakes other := by
  refine wrongAttempt_run crypto (flooded.idle _ (Nat.le_refl _)) flooded.hosted flooded.live ?_ ?_
  · rw [flooded.code]
    decide
  · rw [attempts_of_untracked flooded.untracked]
    decide

theorem Flooded.next (crypto : PairingCrypto) {devices : Nat} {host : PairingHost}
    {pairing : HostingPairing} (flooded : Flooded devices host pairing)
    (room : devices + 1 < maxPairingSources) :
    ∃ next counted,
      (pairingMachine crypto).run host (wrongAttempt (devices + 3) (devices + 1)) = some next ∧
        Flooded (devices + 1) next counted := by
  obtain ⟨next, ran, hosted, clock, others⟩ := flooded.attempt crypto
  have tracked : pairing.tracked = pairing.attemptsBySource :=
    if_neg (by rw [flooded.tracked]; exact Nat.not_le.mpr room)
  have kept : ∀ row : SourceAttempts,
      row.source = (relayedRequest (devices + 1) "000000").source →
      pairing.attemptsBySource.rows.filter (fun other =>
        !Table.displaces SourceAttempts.source Table.noIndex row other) =
        pairing.attemptsBySource.rows := by
    intro row isDevice
    rw [filter_eq_self]
    intro other member
    have apart := flooded.untracked other member
    simp [Table.displaces, Table.noIndex, isDevice, apart]
  refine ⟨next, _, ran, ⟨hosted, flooded.code, ?_, ?_, ?_, ?_⟩⟩
  · rw [clock]
    exact flooded.live
  · simp only [HostingPairing.recordFailure, tracked, Table.insertOrReplace]
    rw [length_append, kept _ rfl, flooded.tracked]
    rfl
  · intro row member
    simp only [HostingPairing.recordFailure, tracked, Table.mem_rows_insertOrReplace] at member
    rcases member with ⟨earlier, -⟩ | rfl
    · obtain ⟨device, within, source⟩ := flooded.sources row earlier
      exact ⟨device, Nat.le_succ_of_le within, source⟩
    · exact ⟨devices + 1, Nat.le_refl _, rfl⟩
  · intro joiner later
    rw [others joiner (by omega)]
    exact flooded.idle joiner (by omega)

theorem flood_succ (devices : Nat) :
    flood (devices + 1) = flood devices ++ wrongAttempt (devices + 3) (devices + 1) := by
  rw [flood, range_succ, flatMap_append, flatMap_singleton, flood]

theorem flood_run {first : HostingPairing} (flooded : Flooded 0 start first) (devices : Nat)
    (room : devices < maxPairingSources) :
    ∃ host pairing, (pairingMachine crypto).run start (flood devices) = some host ∧
      Flooded devices host pairing := by
  induction devices with
  | zero => exact ⟨start, first, rfl, flooded⟩
  | succ devices inductionHypothesis =>
    obtain ⟨host, pairing, ran, there⟩ := inductionHypothesis (by omega)
    obtain ⟨next, counted, onward, flooded⟩ := there.next crypto room
    refine ⟨next, counted, ?_, flooded⟩
    rw [flood_succ]
    exact Machine.run_append ran onward

/-- The host after the first device's guesses. -/
theorem guesses_run :
    ∃ start middle pairing,
      (pairingMachine crypto).run (fresh (VaultStore.empty false true))
        [.startHosting "123456"] = some start ∧
      (pairingMachine crypto).run start guesses = some middle ∧
      wrongCodes crypto (relayedRequest 0 "000000").source start guesses = 3 ∧
      Flooded 0 middle pairing := by
  refine ⟨_, _, _, rfl, rfl, rfl, ⟨rfl, rfl, rfl, rfl, ?_, ?_⟩⟩
  · intro row member
    exact ⟨0, Nat.le_refl _, congrArg SourceAttempts.source (mem_singleton.mp member)⟩
  · intro joiner later
    have apart : joiner ≠ 0 ∧ joiner ≠ 1 ∧ joiner ≠ 2 := by omega
    simp only [handshakes_countFailure _ _ _ apart.1, handshakes_countFailure _ _ _ apart.2.1,
      handshakes_countFailure _ _ _ apart.2.2, checkCap, checkCode, handshakes_setPhase,
      if_neg apart.1, if_neg apart.2.1, if_neg apart.2.2]
    rfl

theorem mem_wrongAttempt (member : action ∈ wrongAttempt joiner device) : SameCode action := by
  simp only [wrongAttempt, mem_cons, not_mem_nil, or_false] at member
  rcases member with rfl | rfl | rfl | rfl <;> trivial

/-- The device that comes back is let through the gate, and its code is compared. -/
theorem comesBack_run (idle : host.handshakes joiner = .idle) (hosted : host.hosting = some pairing)
    (live : pairing.isLive host.clock = true) (code : pairing.code = "123456")
    (forgotten : pairing.attempts (relayedRequest 0 "123456").source < maxPairingAttempts) :
    ∃ final, (pairingMachine crypto).run host (comesBack joiner) = some final ∧
      (final.handshakes joiner).compared = some (relayedRequest 0 "123456") := by
  let request := relayedRequest 0 "123456"
  let found := (host.atGate joiner request).setPhase joiner (.codeMatched request pairing.serial)
  have atFound : (host.atGate joiner request).step crypto (.checkCode joiner) = some found := by
    have right : pairing.code = request.pairingCode := code
    rw [atGate_checkCode crypto hosted live, if_pos right]
  have phase : found.handshakes joiner = .codeMatched request pairing.serial :=
    Function.update_self ..
  refine ⟨found, Machine.run_append (atGate_run crypto idle hosted forgotten)
    (Machine.run_cons_eq_some.mpr ⟨found, atFound, rfl⟩), ?_⟩
  rw [phase]
  rfl

/-- A device that has tried three wrong codes is let in again once 1024 others have failed. -/
theorem not_capsAttempts_flood :
    ¬ CapsAttempts PairingCrypto.symbolic fun _ _ => True := by
  intro caps
  obtain ⟨start, middle, first, reached, tried, capped, flooded⟩ :=
    guesses_run PairingCrypto.symbolic
  obtain ⟨full, pairing, ranFlood, isFull⟩ :=
    flood_run PairingCrypto.symbolic flooded 1023 (by decide)
  obtain ⟨dropped, ranLast, hosted, clock, others⟩ := isFull.attempt PairingCrypto.symbolic
  obtain ⟨final, ranBack, compared⟩ : ∃ final,
      (pairingMachine PairingCrypto.symbolic).run dropped (comesBack 2000) = some final ∧
        (final.handshakes 2000).compared = some (relayedRequest 0 "123456") := by
    have tracked : pairing.tracked = Table.empty :=
      if_pos (by rw [isFull.tracked]; exact Nat.le_refl _)
    refine comesBack_run PairingCrypto.symbolic ?_ hosted ?_ isFull.code ?_
    · rw [others 2000 (by omega)]
      exact isFull.idle 2000 (by omega)
    · rw [clock]
      exact isFull.live
    · rw [attempts_of_untracked]
      · decide
      · intro row member same
        simp only [HostingPairing.recordFailure, tracked, Table.mem_rows_insertOrReplace] at member
        rcases member with ⟨none, -⟩ | rfl
        · cases none
        · have isDevice : 1023 + 1 = 0 := source_relayedRequest_inj same
          omega
  have ranLater : (pairingMachine PairingCrypto.symbolic).run middle
      (flood 1024 ++ comesBack 2000) = some final := by
    rw [flood_succ]
    exact Machine.run_append (Machine.run_append ranFlood ranLast) ranBack
  have sameCode : ∀ action ∈ guesses ++ (flood 1024 ++ comesBack 2000),
      SameCode action ∧ True := by
    intro action member
    refine ⟨?_, trivial⟩
    rcases mem_append.mp member with guess | later
    · simp only [guesses, mem_append] at guess
      rcases guess with (one | two) | three
      · exact mem_wrongAttempt one
      · exact mem_wrongAttempt two
      · exact mem_wrongAttempt three
    · rcases mem_append.mp later with inFlood | back
      · obtain ⟨number, -, attempt⟩ := mem_flatMap.mp inFlood
        exact mem_wrongAttempt attempt
      · simp only [comesBack, mem_cons, not_mem_nil, or_false] at back
        rcases back with rfl | rfl | rfl <;> trivial
  generalize flood 1024 ++ comesBack 2000 = later at ranLater sameCode
  have awaits : (middle.handshakes 2000).awaitsGate = true := by
    rw [flooded.idle 2000 (by omega)]
    rfl
  have turnsAway := caps _ _ _ _ _ _ _ (relayedRequest 0 "123456").source 2000 reached tried
    ranLater
    (Machine.along_of_forall fun action member =>
      sameCode action (mem_append_left _ member))
    (Machine.along_of_forall fun action member =>
      sameCode action (mem_append_right _ member))
    (Nat.le_of_eq capped.symm) awaits
  exact turnsAway.notCompared _ compared rfl

end PairingHost

end Oryxis

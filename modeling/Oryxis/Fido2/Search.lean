/-
This file is about the search for the key that holds a credential. A key that holds it gives the
assertion to a person who touches it and verifies, a key that lacks it never does; both may demand
verification even of a probe, and a holder may stay silent to one. The search asks the first key
that answers the probe with the credential or with such a demand, and what that key says is the
outcome. So an assertion comes back exactly if that first key holds the credential: a key that
demands verification and lacks the credential ends the search before the key that holds it.
-/

import Oryxis.Fido2.Tokens

namespace Oryxis.Fido2

open Dialog List

/-! ### Dialogs step by step -/

section Steps

variable {Result Next : Type}

variable {token : Token} {sent later : List Message}

/-- A dialog that succeeds does so step by step. -/
theorem andThen_eq_ok {dialog : Dialog Result} {next : Result → Dialog Next} {final : Next} :
    (dialog >>= next) token sent = (.ok final, later) ↔
      ∃ result between, dialog token sent = (.ok result, between) ∧
        next result token between = (.ok final, later) := by
  have unfolded : (dialog >>= next) token sent = Dialog.andThen dialog next token sent := rfl
  rw [unfolded, Dialog.andThen]
  cases ran : dialog token sent with
  | mk outcome between =>
    cases outcome with
    | error error =>
      refine iff_of_false (fun impossible => by cases impossible) ?_
      rintro ⟨result, other, impossible, -⟩
      cases impossible
    | ok result =>
      constructor
      · exact fun went => ⟨result, between, rfl, went⟩
      · rintro ⟨other, elsewhere, same, went⟩
        cases same
        exact went

theorem ofExcept_eq_ok {source : Except Error Result} {result : Result} :
    ofExcept source token sent = (.ok result, later) ↔ source = .ok result ∧ later = sent := by
  cases source with
  | error error =>
    refine iff_of_false (fun impossible => by cases impossible) ?_
    rintro ⟨impossible, -⟩
    cases impossible
  | ok value =>
    constructor
    · intro same
      cases same
      exact ⟨rfl, rfl⟩
    · rintro ⟨same, rfl⟩
      cases same
      rfl

theorem fail_ne_ok {error : Error} (token : Token) {result : Result} :
    (fail error : Dialog Result) token sent ≠ (.ok result, later) :=
  fun impossible => by cases impossible

theorem callCommandFor_eq_ok {command : UInt8} {payload reply : List UInt8} :
    callCommandFor command payload token sent = (.ok reply, later) ↔
      token.answer (sent ++ [⟨command, payload⟩]) = .ok reply ∧
        later = sent ++ [⟨command, payload⟩] := by
  rw [callCommandFor, Prod.mk.injEq]
  exact and_congr_right fun _ => eq_comm

end Steps

/-! ### Keys -/

def Token.SpeaksCtap2 (token : Token) : Prop :=
  ∃ capabilities, token.init = .ok capabilities ∧ (capabilities &&& capflagCbor != 0) = true

def Token.SpeaksU2f (token : Token) : Prop :=
  ∃ capabilities, token.init = .ok capabilities ∧ (capabilities &&& capflagCbor != 0) = false

/-- A reply that carries an assertion. -/
def Grants (reply : List UInt8) : Prop :=
  ∃ rest assertion, reply = ctap2Ok :: rest ∧ parseGetAssertion reply = .ok assertion

section Keys

variable (crypto : Crypto) (interaction : Interaction) (request : AssertionRequest)

/-- The message that asks for the assertion, with or without proof of the user. -/
def askMessage (verification : Option Verification) : Message where
  command := cmdCbor
  payload := ctap2GetAssertion :: (Value.map (requestEntries crypto.hmac request
    (crypto.sha256 request.message) verification)).encode

/-- The message that probes without a touch. -/
def probeMessage : Message where
  command := cmdCbor
  payload := ctap2GetAssertion :: (Value.map (requestEntries crypto.hmac request.silent
    (crypto.sha256 request.message) none)).encode

/-- An authentication request of U2F, if the handle is short enough for one. -/
def Authenticates (control : UInt8) (handle : List UInt8) (message : Message) : Prop :=
  message.command = cmdMsg ∧ u2fApdu crypto control (crypto.sha256 request.message)
    request.application handle = .ok message.payload

/-- The person verifies from here on, and the token grants the request that proves it. -/
def Verified (token : Token) (sent : List Message) : Prop :=
  ∃ verification later reply,
    verify crypto interaction request token sent = (.ok verification, later) ∧
    token.answer (later ++ [askMessage crypto request (some verification)]) = .ok reply ∧
    Grants reply

/-- The key is touched while there is time for it, and signs. -/
def Touched (token : Token) (sent : List Message) (message : Message) : Prop :=
  ∃ waits ≤ interaction.patience,
    (∀ earlier < waits, ∃ reply,
      token.answer (sent ++ List.replicate (earlier + 1) message) = .ok reply ∧
        statusWord reply = .ok swConditionsNotSatisfied) ∧
    ∃ reply assertion, token.answer (sent ++ List.replicate (waits + 1) message) = .ok reply ∧
      statusWord reply = .ok swOk ∧ u2fAssertion reply = .ok assertion

/-- What a token that holds the credential does from here on, the person being cooperative: it
grants the request, if it demands verification once it is given; a U2F token signs when it is
touched. -/
inductive HoldsAt (token : Token) (sent : List Message) : Prop where
  | proved : token.SpeaksCtap2 → request.userVerification = true →
      Verified crypto interaction request token sent → HoldsAt token sent
  | granted {reply : List UInt8} : token.SpeaksCtap2 → request.userVerification = false →
      token.answer (sent ++ [askMessage crypto request none]) = .ok reply → Grants reply →
      HoldsAt token sent
  | demanded {rest : List UInt8} : token.SpeaksCtap2 → request.userVerification = false →
      token.answer (sent ++ [askMessage crypto request none])
        = .ok (ctap2ErrPuatRequired :: rest) →
      Verified crypto interaction request token (sent ++ [askMessage crypto request none]) →
      HoldsAt token sent
  | touched {handle : List UInt8} {message : Message} : token.SpeaksU2f →
      request.userVerification = false → request.allow = some handle →
      Authenticates crypto request u2fEnforcePresence handle message →
      Touched interaction token sent message → HoldsAt token sent

/-- What a token that lacks the credential never answers. -/
structure Lacks (token : Token) : Prop where
  probe : ∀ sent rest, token.answer (sent ++ [probeMessage crypto request])
    ≠ .ok (ctap2Ok :: rest)
  ask : ∀ sent verification rest, token.answer (sent ++ [askMessage crypto request verification])
    ≠ .ok (ctap2Ok :: rest)
  check : ∀ handle message, Authenticates crypto request u2fCheckOnly handle message →
    ∀ sent reply, token.answer (sent ++ [message]) = .ok reply →
      statusWord reply ≠ .ok swConditionsNotSatisfied
  sign : ∀ handle message, Authenticates crypto request u2fEnforcePresence handle message →
    ∀ sent reply, token.answer (sent ++ [message]) = .ok reply → statusWord reply ≠ .ok swOk

/-- A key that is plugged in: its token either holds the credential, when it is asked first and
when it was probed, or lacks it. Nobody cancels. -/
structure SecurityKey where
  token : Token
  holds : Bool
  holding : holds = true → HoldsAt crypto interaction request token [] ∧
    ∀ handle ∈ request.allow, HoldsAt crypto interaction request token
      (holdsCredential crypto request handle token []).2
  lacking : holds = false → Lacks crypto request token
  opening : token.init ≠ .error .cancelled
  answering : ∀ sent, token.answer sent ≠ .error .cancelled

/-- The token answers the probe with the credential or with a demand for verification. -/
def Invites (handle : List UInt8) (token : Token) : Prop :=
  (token.SpeaksCtap2 ∧ ∃ code rest,
    token.answer [probeMessage crypto request] = .ok (code :: rest) ∧
      (code = ctap2Ok ∨ code = ctap2ErrPuatRequired)) ∨
  (token.SpeaksU2f ∧ ∃ message reply,
    Authenticates crypto request u2fCheckOnly handle message ∧
      token.answer [message] = .ok reply ∧ statusWord reply = .ok swConditionsNotSatisfied)

/-- The assertion is what this token replied. -/
def MadeBy (token : Token) (assertion : Assertion) : Prop :=
  ∃ sent reply, token.answer sent = .ok reply ∧
    (parseGetAssertion reply = .ok assertion ∨ u2fAssertion reply = .ok assertion)

/-! ### What each dialog comes to -/

variable {token : Token} {sent later : List Message}

theorem openChannel_eq_ok {cbor : Bool} :
    openChannel token sent = (.ok cbor, later) ↔
      (∃ capabilities, token.init = .ok capabilities ∧
        (capabilities &&& capflagCbor != 0) = cbor) ∧ later = sent := by
  rw [openChannel]
  cases token.init with
  | error error =>
    refine iff_of_false (fun impossible => by cases impossible) ?_
    rintro ⟨⟨capabilities, impossible, -⟩, -⟩
    cases impossible
  | ok capabilities =>
    constructor
    · intro same
      cases same
      exact ⟨⟨capabilities, rfl, rfl⟩, rfl⟩
    · rintro ⟨⟨other, same, rfl⟩, rfl⟩
      cases same
      rfl

variable {reply : List UInt8} {assertion : Assertion}

theorem answered_none_eq_ok :
    answered reply none token sent = (.ok assertion, later) ↔
      (∃ rest, reply = ctap2Ok :: rest ∧ parseGetAssertion reply = .ok assertion) ∧
        later = sent := by
  cases reply with
  | nil =>
    refine iff_of_false (fail_ne_ok token) ?_
    rintro ⟨⟨rest, impossible, -⟩, -⟩
    cases impossible
  | cons code rest =>
    rw [answered]
    by_cases fine : code = ctap2Ok
    · rw [if_pos fine, ofExcept_eq_ok, fine]
      refine and_congr_left fun _ => ⟨fun parsed => ⟨rest, rfl, parsed⟩, ?_⟩
      rintro ⟨other, -, parsed⟩
      exact parsed
    · rw [if_neg fine]
      refine iff_of_false (fail_ne_ok token) ?_
      rintro ⟨⟨other, same, -⟩, -⟩
      exact fine (cons.inj same).1

theorem answered_some_eq_ok {again : Dialog Assertion} :
    answered reply (some again) token sent = (.ok assertion, later) ↔
      ((∃ rest, reply = ctap2Ok :: rest ∧ parseGetAssertion reply = .ok assertion) ∧
        later = sent) ∨
      (∃ rest, reply = ctap2ErrPuatRequired :: rest) ∧ again token sent = (.ok assertion, later) := by
  cases reply with
  | nil =>
    refine iff_of_false (fail_ne_ok token) ?_
    rintro (⟨⟨rest, impossible, -⟩, -⟩ | ⟨⟨rest, impossible⟩, -⟩)
    · cases impossible
    · cases impossible
  | cons code rest =>
    rw [answered]
    by_cases fine : code = ctap2Ok
    · subst fine
      rw [if_pos rfl, ofExcept_eq_ok]
      constructor
      · rintro ⟨parsed, same⟩
        exact .inl ⟨⟨rest, rfl, parsed⟩, same⟩
      · rintro (⟨⟨other, -, parsed⟩, same⟩ | ⟨⟨other, demand⟩, -⟩)
        · exact ⟨parsed, same⟩
        · exact absurd (cons.inj demand).1 (by decide)
    · rw [if_neg fine]
      by_cases demand : code = ctap2ErrPuatRequired
      · rw [if_pos demand, demand]
        constructor
        · exact fun went => .inr ⟨⟨rest, rfl⟩, went⟩
        · rintro (⟨⟨other, same, -⟩, -⟩ | ⟨-, went⟩)
          · exact absurd (cons.inj same).1 (by decide)
          · exact went
      · rw [if_neg demand]
        refine iff_of_false (fail_ne_ok token) ?_
        rintro (⟨⟨other, same, -⟩, -⟩ | ⟨⟨other, same⟩, -⟩)
        · exact fine (cons.inj same).1
        · exact demand (cons.inj same).1

variable {crypto interaction request}

theorem askVerified_eq_ok {verification : Verification} :
    askVerified crypto request (crypto.sha256 request.message) verification token sent
        = (.ok assertion, later) ↔
      later = sent ++ [askMessage crypto request (some verification)] ∧
      ∃ reply, token.answer (sent ++ [askMessage crypto request (some verification)]) = .ok reply ∧
        ∃ rest, reply = ctap2Ok :: rest ∧ parseGetAssertion reply = .ok assertion := by
  rw [askVerified, encodeGetAssertion_eq, andThen_eq_ok]
  simp only [ofExcept_eq_ok, call, andThen_eq_ok, callCommandFor_eq_ok, answered_none_eq_ok]
  constructor
  · rintro ⟨payload, between, ⟨same, rfl⟩, reply, after, ⟨replied, rfl⟩, granted, rfl⟩
    cases same
    exact ⟨rfl, reply, replied, granted⟩
  · rintro ⟨rfl, reply, replied, granted⟩
    exact ⟨_, sent, ⟨rfl, rfl⟩, reply, _, ⟨replied, rfl⟩, granted, rfl⟩

theorem askUnverified_eq_ok :
    askUnverified crypto interaction request (crypto.sha256 request.message) token sent
        = (.ok assertion, later) ↔
      ∃ reply, token.answer (sent ++ [askMessage crypto request none]) = .ok reply ∧
        (((∃ rest, reply = ctap2Ok :: rest ∧ parseGetAssertion reply = .ok assertion) ∧
          later = sent ++ [askMessage crypto request none]) ∨
        (∃ rest, reply = ctap2ErrPuatRequired :: rest) ∧ ∃ verification between,
          verify crypto interaction request token (sent ++ [askMessage crypto request none])
            = (.ok verification, between) ∧
          askVerified crypto request (crypto.sha256 request.message) verification token between
            = (.ok assertion, later)) := by
  rw [askUnverified, encodeGetAssertion_eq, andThen_eq_ok]
  simp only [ofExcept_eq_ok, call, andThen_eq_ok, callCommandFor_eq_ok, answered_some_eq_ok]
  constructor
  · rintro ⟨payload, between, ⟨same, rfl⟩, reply, after, ⟨replied, rfl⟩, outcome⟩
    cases same
    exact ⟨reply, replied, outcome⟩
  · rintro ⟨reply, replied, outcome⟩
    exact ⟨_, sent, ⟨rfl, rfl⟩, reply, _, ⟨replied, rfl⟩, outcome⟩

variable {apdu : List UInt8}

theorem u2fTurn_eq_ok {waiting : Dialog Assertion} :
    u2fTurn apdu waiting token sent = (.ok assertion, later) ↔
      ∃ reply, token.answer (sent ++ [⟨cmdMsg, apdu⟩]) = .ok reply ∧
        ((statusWord reply = .ok swOk ∧ u2fAssertion reply = .ok assertion ∧
          later = sent ++ [⟨cmdMsg, apdu⟩]) ∨
        (statusWord reply = .ok swConditionsNotSatisfied ∧
          waiting token (sent ++ [⟨cmdMsg, apdu⟩]) = (.ok assertion, later))) := by
  rw [u2fTurn]
  simp only [andThen_eq_ok, callCommandFor_eq_ok, ofExcept_eq_ok]
  constructor
  · rintro ⟨reply, after, ⟨replied, rfl⟩, status, between, ⟨word, rfl⟩, outcome⟩
    refine ⟨reply, replied, ?_⟩
    rw [word]
    split at outcome
    · rename_i fine
      obtain ⟨signed, same⟩ := ofExcept_eq_ok.mp outcome
      exact .inl ⟨congrArg Except.ok fine, signed, same⟩
    · split at outcome
      · rename_i wait
        exact .inr ⟨congrArg Except.ok wait, outcome⟩
      · split at outcome
        · exact absurd outcome (fail_ne_ok token)
        · exact absurd outcome (fail_ne_ok token)
  · rintro ⟨reply, replied, outcome⟩
    obtain ⟨word, signed, rfl⟩ | ⟨word, went⟩ := outcome
    · refine ⟨reply, _, ⟨replied, rfl⟩, swOk, _, ⟨word, rfl⟩, ?_⟩
      rw [if_pos rfl, ofExcept_eq_ok]
      exact ⟨signed, rfl⟩
    · refine ⟨reply, _, ⟨replied, rfl⟩, swConditionsNotSatisfied, _, ⟨word, rfl⟩, ?_⟩
      rw [if_neg (by decide), if_pos rfl]
      exact went

/-- A signature comes from a reply that says so. -/
theorem u2fSign_ok {patience : Nat} :
    ∀ {sent later : List Message},
      u2fSign apdu patience token sent = (.ok assertion, later) →
      ∃ before reply, token.answer (before ++ [⟨cmdMsg, apdu⟩]) = .ok reply ∧
        statusWord reply = .ok swOk ∧ u2fAssertion reply = .ok assertion := by
  induction patience with
  | zero =>
    intro sent later went
    obtain ⟨reply, replied, ⟨word, signed, -⟩ | ⟨-, impossible⟩⟩ := u2fTurn_eq_ok.mp went
    · exact ⟨sent, reply, replied, word, signed⟩
    · exact absurd impossible (fail_ne_ok token)
  | succ patience ih =>
    intro sent later went
    obtain ⟨reply, replied, ⟨word, signed, -⟩ | ⟨-, again⟩⟩ := u2fTurn_eq_ok.mp went
    · exact ⟨sent, reply, replied, word, signed⟩
    · exact ih again

/-- A key that is touched in time signs. -/
theorem u2fSign_touched : ∀ {waits patience : Nat} {sent : List Message}, waits ≤ patience →
      (∀ earlier < waits, ∃ reply,
        token.answer (sent ++ List.replicate (earlier + 1) ⟨cmdMsg, apdu⟩) = .ok reply ∧
          statusWord reply = .ok swConditionsNotSatisfied) →
      token.answer (sent ++ List.replicate (waits + 1) ⟨cmdMsg, apdu⟩) = .ok reply →
      statusWord reply = .ok swOk → u2fAssertion reply = .ok assertion →
      ∃ later, u2fSign apdu patience token sent = (.ok assertion, later) := by
  intro waits
  induction waits with
  | zero =>
    intro patience sent _ _ replied word signed
    cases patience with
    | zero => exact ⟨_, u2fTurn_eq_ok.mpr ⟨reply, replied, .inl ⟨word, signed, rfl⟩⟩⟩
    | succ patience => exact ⟨_, u2fTurn_eq_ok.mpr ⟨reply, replied, .inl ⟨word, signed, rfl⟩⟩⟩
  | succ waits ih =>
    intro patience sent time waiting replied word signed
    cases patience with
    | zero => exact absurd time (Nat.not_succ_le_zero _)
    | succ patience =>
      obtain ⟨first, answered, wait⟩ := waiting 0 (Nat.succ_pos _)
      have shift (count : Nat) : sent ++ List.replicate (count + 1 + 1) ⟨cmdMsg, apdu⟩
          = sent ++ [⟨cmdMsg, apdu⟩] ++ List.replicate (count + 1) ⟨cmdMsg, apdu⟩ := by
        rw [append_assoc, singleton_append, ← replicate_succ]
      have again : ∃ later, u2fSign apdu patience token (sent ++ [⟨cmdMsg, apdu⟩])
          = (.ok assertion, later) := ih (Nat.le_of_succ_le_succ time)
        (fun earlier before => by
          rw [← shift]
          exact waiting (earlier + 1) (Nat.succ_lt_succ before))
        (by
          rw [← shift]
          exact replied)
        word signed
      obtain ⟨later, went⟩ := again
      exact ⟨later, u2fTurn_eq_ok.mpr ⟨first, answered, .inr ⟨wait, went⟩⟩⟩

/-! ### Asking one key -/

/-- An assertion comes from a reply that grants the request. -/
theorem getAssertion_ok
    (went : getAssertion crypto interaction request token sent = (.ok assertion, later)) :
    (∃ before verification reply rest,
      token.answer (before ++ [askMessage crypto request verification]) = .ok reply ∧
        reply = ctap2Ok :: rest ∧ parseGetAssertion reply = .ok assertion) ∨
    (∃ handle message before reply,
      Authenticates crypto request u2fEnforcePresence handle message ∧
        token.answer (before ++ [message]) = .ok reply ∧ statusWord reply = .ok swOk ∧
        u2fAssertion reply = .ok assertion) := by
  simp only [getAssertion, andThen_eq_ok] at went
  obtain ⟨cbor, between, -, went⟩ := went
  split at went
  · rw [u2fAuthenticate] at went
    split at went
    · exact absurd went (fail_ne_ok token)
    · cases allowed : request.allow with
      | none =>
        rw [allowed] at went
        exact absurd went (fail_ne_ok token)
      | some handle =>
        rw [allowed] at went
        obtain ⟨apdu, after, short, signed⟩ := andThen_eq_ok.mp went
        obtain ⟨made, rfl⟩ := ofExcept_eq_ok.mp short
        obtain ⟨before, reply, replied, word, parsed⟩ := u2fSign_ok signed
        exact .inr ⟨handle, ⟨cmdMsg, apdu⟩, before, reply, ⟨rfl, made⟩, replied, word, parsed⟩
  · split at went
    · obtain ⟨verification, after, -, asked⟩ := andThen_eq_ok.mp went
      obtain ⟨-, reply, replied, rest, fine, parsed⟩ := askVerified_eq_ok.mp asked
      exact .inl ⟨_, _, reply, rest, replied, fine, parsed⟩
    · obtain ⟨reply, replied, outcome⟩ := askUnverified_eq_ok.mp went
      obtain ⟨⟨rest, fine, parsed⟩, -⟩ | ⟨-, verification, after, -, asked⟩ := outcome
      · exact .inl ⟨_, _, reply, rest, replied, fine, parsed⟩
      · obtain ⟨-, reply, replied, rest, fine, parsed⟩ := askVerified_eq_ok.mp asked
        exact .inl ⟨_, _, reply, rest, replied, fine, parsed⟩

theorem getAssertion_made
    (went : getAssertion crypto interaction request token sent = (.ok assertion, later)) :
    MadeBy token assertion := by
  obtain ⟨before, verification, reply, rest, replied, -, parsed⟩ |
    ⟨handle, message, before, reply, -, replied, -, parsed⟩ := getAssertion_ok went
  · exact ⟨_, reply, replied, .inl parsed⟩
  · exact ⟨_, reply, replied, .inr parsed⟩

/-- A token that lacks the credential gives no assertion. -/
theorem getAssertion_lacks (lacks : Lacks crypto request token) :
    getAssertion crypto interaction request token sent ≠ (.ok assertion, later) := by
  intro went
  obtain ⟨before, verification, reply, rest, replied, rfl, -⟩ |
    ⟨handle, message, before, reply, authenticates, replied, word, -⟩ := getAssertion_ok went
  · exact lacks.ask before verification rest replied
  · exact lacks.sign handle message authenticates before reply replied word

/-- A token that holds the credential gives an assertion. -/
theorem getAssertion_holds (holds : HoldsAt crypto interaction request token sent) :
    ∃ assertion later,
      getAssertion crypto interaction request token sent = (.ok assertion, later) := by
  simp only [getAssertion, andThen_eq_ok, openChannel_eq_ok]
  cases holds with
  | proved speaks demanded verified =>
    obtain ⟨verification, between, reply, ran, replied, rest, assertion, fine, parsed⟩ := verified
    refine ⟨assertion, between ++ [askMessage crypto request (some verification)], true, sent,
      ⟨speaks, rfl⟩, ?_⟩
    rw [if_neg (by decide), if_pos demanded]
    exact andThen_eq_ok.mpr ⟨verification, between, ran,
      askVerified_eq_ok.mpr ⟨rfl, reply, replied, rest, fine, parsed⟩⟩
  | granted speaks free replied grants =>
    obtain ⟨rest, assertion, fine, parsed⟩ := grants
    refine ⟨assertion, sent ++ [askMessage crypto request none], true, sent, ⟨speaks, rfl⟩, ?_⟩
    rw [if_neg (by decide), if_neg (Bool.eq_false_iff.mp free)]
    exact askUnverified_eq_ok.mpr ⟨_, replied, .inl ⟨⟨rest, fine, parsed⟩, rfl⟩⟩
  | demanded speaks free replied verified =>
    obtain ⟨verification, between, reply, ran, granted, rest, assertion, fine, parsed⟩ := verified
    refine ⟨assertion, between ++ [askMessage crypto request (some verification)], true, sent,
      ⟨speaks, rfl⟩, ?_⟩
    rw [if_neg (by decide), if_neg (Bool.eq_false_iff.mp free)]
    exact askUnverified_eq_ok.mpr ⟨_, replied, .inr ⟨⟨_, rfl⟩, verification, between, ran,
      askVerified_eq_ok.mpr ⟨rfl, reply, granted, rest, fine, parsed⟩⟩⟩
  | @touched handle message speaks free allowed authenticates touched =>
    obtain ⟨waits, time, waiting, reply, assertion, replied, word, signed⟩ := touched
    obtain ⟨command, payload⟩ := message
    obtain ⟨rfl, made⟩ := authenticates
    obtain ⟨later, went⟩ := u2fSign_touched time waiting replied word signed
    refine ⟨assertion, later, false, sent, ⟨speaks, rfl⟩, ?_⟩
    rw [if_pos (show (!false) = true from rfl), u2fAuthenticate, if_neg (Bool.eq_false_iff.mp free), allowed]
    exact andThen_eq_ok.mpr ⟨payload, sent, ofExcept_eq_ok.mpr ⟨made, rfl⟩, went⟩

/-! ### Probing one key -/

variable {handle : List UInt8}

/-- The probe says yes to a token that answers with the credential or with a demand. -/
theorem holdsCredential_true :
    (∃ later, holdsCredential crypto request handle token [] = (.ok true, later)) ↔
      Invites crypto request handle token := by
  simp only [holdsCredential, andThen_eq_ok, openChannel_eq_ok]
  constructor
  · rintro ⟨later, cbor, between, ⟨speaks, rfl⟩, went⟩
    cases cbor with
    | false =>
      rw [if_pos (show (!false) = true from rfl)] at went
      simp only [andThen_eq_ok, ofExcept_eq_ok, callCommandFor_eq_ok] at went
      obtain ⟨apdu, before, ⟨made, rfl⟩, reply, after, ⟨replied, rfl⟩, status, checked, ⟨word, rfl⟩,
        same⟩ := went
      have yes : status = swConditionsNotSatisfied := by
        have verdict := congrArg Prod.fst same
        exact beq_iff_eq.mp (Except.ok.inj verdict)
      exact .inr ⟨speaks, ⟨cmdMsg, apdu⟩, reply, ⟨rfl, made⟩, replied, yes ▸ word⟩
    | true =>
      rw [if_neg (by decide), encodeGetAssertion_eq] at went
      simp only [andThen_eq_ok, ofExcept_eq_ok, call, callCommandFor_eq_ok] at went
      obtain ⟨payload, before, ⟨made, rfl⟩, reply, after, ⟨replied, rfl⟩, same⟩ := went
      cases made
      cases reply with
      | nil =>
        have verdict := congrArg Prod.fst same
        cases verdict
      | cons code rest =>
        have verdict := Except.ok.inj (congrArg Prod.fst same)
        rw [Bool.or_eq_true, beq_iff_eq, beq_iff_eq] at verdict
        exact .inl ⟨speaks, code, rest, replied, verdict⟩
  · rintro (⟨speaks, code, rest, replied, yes⟩ | ⟨speaks, ⟨command, apdu⟩, reply, ⟨rfl, made⟩,
      replied, word⟩)
    · refine ⟨[probeMessage crypto request], true, [], ⟨speaks, rfl⟩, ?_⟩
      rw [if_neg (by decide), encodeGetAssertion_eq]
      simp only [andThen_eq_ok, ofExcept_eq_ok, call, callCommandFor_eq_ok]
      refine ⟨_, [], ⟨rfl, rfl⟩, code :: rest, _, ⟨replied, rfl⟩, ?_⟩
      have verdict : (code == ctap2Ok || code == ctap2ErrPuatRequired) = true := by
        rw [Bool.or_eq_true, beq_iff_eq, beq_iff_eq]
        exact yes
      dsimp only
      rw [verdict]
      rfl
    · refine ⟨[⟨cmdMsg, apdu⟩], false, [], ⟨speaks, rfl⟩, ?_⟩
      rw [if_pos (show (!false) = true from rfl)]
      simp only [andThen_eq_ok, ofExcept_eq_ok, callCommandFor_eq_ok]
      exact ⟨apdu, [], ⟨made, rfl⟩, reply, _, ⟨replied, rfl⟩, _, _, ⟨word, rfl⟩, rfl⟩

/-- A dialog that is not cancelled with a token. -/
def Uncancelled {Result : Type} (dialog : Dialog Result) (token : Token) : Prop :=
  ∀ sent, (dialog token sent).1 ≠ .error .cancelled

theorem uncancelled_andThen {Result Next : Type} {dialog : Dialog Result}
    {next : Result → Dialog Next} (first : Uncancelled dialog token)
    (rest : ∀ result, Uncancelled (next result) token) : Uncancelled (dialog >>= next) token := by
  intro sent
  have unfolded : (dialog >>= next) token sent = Dialog.andThen dialog next token sent := rfl
  rw [unfolded, Dialog.andThen]
  have before := first sent
  cases ran : dialog token sent with
  | mk outcome between =>
    rw [ran] at before
    cases outcome with
    | error error => exact fun same => before (congrArg Except.error (Except.error.inj same))
    | ok result => exact rest result between

theorem uncancelled_ofExcept {Result : Type} {source : Except Error Result}
    (fine : source ≠ .error .cancelled) : Uncancelled (ofExcept source) token := by
  intro sent
  cases source with
  | error error => exact fun same => fine (congrArg Except.error (Except.error.inj same))
  | ok result =>
    intro impossible
    cases impossible

theorem uncancelled_pure {Result : Type} (result : Result) (token : Token) :
    Uncancelled (pure result : Dialog Result) token :=
  fun _ impossible => by cases impossible

theorem statusWord_ne_cancelled (reply : List UInt8) : statusWord reply ≠ .error .cancelled := by
  rw [statusWord]
  split
  · exact fun impossible => by cases impossible
  · exact fun impossible => by cases impossible

theorem u2fApdu_ne_cancelled (control : UInt8) (hash : Hash) (application : String)
    (handle : List UInt8) :
    u2fApdu crypto control hash application handle ≠ .error .cancelled := by
  rw [u2fApdu]
  split
  · exact fun impossible => by cases impossible
  · exact fun impossible => by cases impossible

variable (key : SecurityKey crypto interaction request)

/-- The probe of a key is not cancelled. -/
theorem holdsCredential_uncancelled (handle : List UInt8) :
    Uncancelled (holdsCredential crypto request handle) key.token := by
  have opened : Uncancelled openChannel key.token := by
    intro sent
    have fine := key.opening
    rw [openChannel]
    cases init : key.token.init with
    | error error =>
      rw [init] at fine
      exact fun same => fine (congrArg Except.error (Except.error.inj same))
    | ok capabilities => exact fun impossible => by cases impossible
  have called (command : UInt8) (payload : List UInt8) :
      Uncancelled (callCommandFor command payload) key.token := fun sent => key.answering _
  refine uncancelled_andThen opened fun cbor => ?_
  split
  · exact uncancelled_andThen (uncancelled_ofExcept (u2fApdu_ne_cancelled _ _ _ _)) fun apdu =>
      uncancelled_andThen (called _ _) fun reply =>
        uncancelled_andThen (uncancelled_ofExcept (statusWord_ne_cancelled reply)) fun status =>
          uncancelled_pure _ _
  · rw [encodeGetAssertion_eq]
    refine uncancelled_andThen (uncancelled_ofExcept fun impossible => by cases impossible)
      fun payload => uncancelled_andThen (called _ _) fun reply => ?_
    cases reply with
    | nil => exact uncancelled_pure _ _
    | cons code rest => exact uncancelled_pure _ _

/-! ### The search -/

/-- A key the probe turns away is passed over. -/
theorem search_turned_away (keys : List Token)
    (turnedAway : ¬Invites crypto request handle key.token) :
    search crypto interaction request handle (key.token :: keys)
      = search crypto interaction request handle keys := by
  have uncancelled := holdsCredential_uncancelled key handle []
  have no : ∀ later, holdsCredential crypto request handle key.token [] ≠ (.ok true, later) :=
    fun later yes => turnedAway (holdsCredential_true.mp ⟨later, yes⟩)
  rw [search]
  split
  · rename_i sent yes
    exact absurd yes (no sent)
  · rfl
  · rename_i cancelled
    rw [cancelled] at uncancelled
    exact absurd rfl uncancelled
  · rfl

/-- A key the probe invites is asked, and that is the outcome. -/
theorem search_invited (tokens : List Token) (invited : Invites crypto request handle token) :
    search crypto interaction request handle (token :: tokens)
      = (getAssertion crypto interaction request token
          (holdsCredential crypto request handle token []).2).1 := by
  obtain ⟨later, yes⟩ := holdsCredential_true.mpr invited
  rw [search, yes]

/-- The outcome of the search is that of the first key the probe invites. -/
theorem search_split (handle : List UInt8) (keys : List (SecurityKey crypto interaction request)) :
    ((∀ key ∈ keys, ¬Invites crypto request handle key.token) ∧
      search crypto interaction request handle (keys.map SecurityKey.token)
        = .error .credentialNotFound) ∨
    ∃ before key after, keys = before ++ key :: after ∧
      (∀ other ∈ before, ¬Invites crypto request handle other.token) ∧
      Invites crypto request handle key.token ∧
      search crypto interaction request handle (keys.map SecurityKey.token)
        = (getAssertion crypto interaction request key.token
            (holdsCredential crypto request handle key.token []).2).1 := by
  induction keys with
  | nil => exact .inl ⟨forall_mem_nil _, rfl⟩
  | cons key keys ih =>
    rw [map_cons]
    by_cases invited : Invites crypto request handle key.token
    · exact .inr ⟨[], key, keys, rfl, forall_mem_nil _,
        invited, search_invited _ invited⟩
    · rw [search_turned_away key _ invited]
      obtain ⟨none, outcome⟩ | ⟨before, first, after, rfl, passed, found, outcome⟩ := ih
      · refine .inl ⟨fun other among => ?_, outcome⟩
        obtain rfl | later := mem_cons.mp among
        · exact invited
        · exact none other later
      · refine .inr ⟨key :: before, first, after, rfl, fun other among => ?_, found, outcome⟩
        obtain rfl | later := mem_cons.mp among
        · exact invited
        · exact passed other later

variable (crypto interaction request)

/-- The assertion comes back, from a key that holds the credential. -/
def Found (keys : List (SecurityKey crypto interaction request)) : Prop :=
  ∃ assertion,
    getAssertionFrom crypto interaction request (keys.map SecurityKey.token) = .ok assertion ∧
      ∃ key ∈ keys, key.holds = true ∧ MadeBy key.token assertion

/-- With a handle and several keys, the first key that answers the probe with the credential or
with a demand for verification holds the credential; otherwise the first key does. -/
def FirstInvitedHolds (keys : List (SecurityKey crypto interaction request)) : Prop :=
  match request.allow, decide (1 < keys.length) with
  | some handle, true =>
    ∃ before key after, keys = before ++ key :: after ∧
      (∀ other ∈ before, ¬Invites crypto request handle other.token) ∧
      Invites crypto request handle key.token ∧ key.holds = true
  | _, _ => ∃ key, keys.head? = some key ∧ key.holds = true

variable {crypto interaction request}

/-- What a key that is asked says is an assertion exactly if it holds the credential. -/
theorem getAssertion_iff
    (asked : key.holds = true → HoldsAt crypto interaction request key.token sent) :
    (∃ assertion, (getAssertion crypto interaction request key.token sent).1 = .ok assertion) ↔
      key.holds = true := by
  constructor
  · rintro ⟨assertion, went⟩
    cases holds : key.holds with
    | false =>
      have pair : getAssertion crypto interaction request key.token sent = (.ok assertion,
          (getAssertion crypto interaction request key.token sent).2) := Prod.ext went rfl
      exact absurd pair (getAssertion_lacks (key.lacking holds))
    | true => rfl
  · intro holds
    obtain ⟨assertion, later, went⟩ := getAssertion_holds (asked holds)
    exact ⟨assertion, congrArg Prod.fst went⟩

/-- The first item of a kind is one. -/
theorem first_unique {Item : Type} (holds : Item → Prop) {before after : List Item}
    {first : Item} (passed : ∀ item ∈ before, ¬holds item) (found : holds first) :
    ∀ {before' after' : List Item} {first' : Item},
      before ++ first :: after = before' ++ first' :: after' →
      (∀ item ∈ before', ¬holds item) → holds first' → first = first' := by
  induction before with
  | nil =>
    intro before' after' first' same passed' _
    cases before' with
    | nil => exact (cons.inj same).1
    | cons other rest =>
      exact absurd ((cons.inj same).1 ▸ found) (passed' other mem_cons_self)
  | cons item before ih =>
    intro before' after' first' same passed' found'
    cases before' with
    | nil =>
      exact absurd ((cons.inj same).1 ▸ found') (passed item mem_cons_self)
    | cons other rest =>
      exact ih (fun other among => passed other (mem_cons_of_mem _ among))
        (cons.inj same).2 (fun other among => passed' other (mem_cons_of_mem _ among))
        found'

/-- One key decides: the outcome is what it says, and it is among the keys. -/
theorem found_iff_of_decides {keys : List (SecurityKey crypto interaction request)}
    {key : SecurityKey crypto interaction request} (among : key ∈ keys)
    (asked : key.holds = true → HoldsAt crypto interaction request key.token sent)
    (outcome : getAssertionFrom crypto interaction request (keys.map SecurityKey.token)
      = (getAssertion crypto interaction request key.token sent).1) :
    Found crypto interaction request keys ↔ key.holds = true := by
  rw [← getAssertion_iff key asked, Found, outcome]
  constructor
  · rintro ⟨assertion, went, -⟩
    exact ⟨assertion, went⟩
  · rintro ⟨assertion, went⟩
    have holds := (getAssertion_iff key asked).mp ⟨assertion, went⟩
    exact ⟨assertion, went, key, among, holds, getAssertion_made (Prod.ext went rfl)⟩

/-- Among keys of which one holds the credential, the assertion comes back exactly if the key that
decides holds it. -/
theorem found_iff (keys : List (SecurityKey crypto interaction request))
    (plugged : ∃ key ∈ keys, key.holds = true) :
    Found crypto interaction request keys ↔ FirstInvitedHolds crypto interaction request keys := by
  have first : (∀ handle, request.allow = some handle → ¬1 < keys.length) →
      (Found crypto interaction request keys ↔ ∃ key, keys.head? = some key ∧ key.holds = true) := by
    intro alone
    obtain ⟨key, among, -⟩ := plugged
    cases keys with
    | nil => exact absurd among not_mem_nil
    | cons head tail =>
      have outcome : getAssertionFrom crypto interaction request
          ((head :: tail).map SecurityKey.token)
          = (getAssertion crypto interaction request head.token []).1 := by
        unfold getAssertionFrom
        rw [length_map]
        cases allowed : request.allow with
        | none => rfl
        | some handle =>
          rw [decide_eq_false (alone handle allowed)]
          rfl
      rw [found_iff_of_decides mem_cons_self (fun holds => (head.holding holds).1) outcome]
      constructor
      · exact fun holds => ⟨head, rfl, holds⟩
      · rintro ⟨other, same, holds⟩
        cases same
        exact holds
  rw [FirstInvitedHolds]
  cases allowed : request.allow with
  | none => exact first fun handle impossible => by rw [allowed] at impossible; cases impossible
  | some handle =>
    by_cases several : 1 < keys.length
    · rw [decide_eq_true several]
      dsimp only
      have searched : getAssertionFrom crypto interaction request (keys.map SecurityKey.token)
          = search crypto interaction request handle (keys.map SecurityKey.token) := by
        unfold getAssertionFrom
        rw [length_map, allowed, decide_eq_true several]
      obtain ⟨none, outcome⟩ | ⟨before, key, after, rfl, passed, found, outcome⟩ :=
        search_split handle keys
      · refine iff_of_false ?_ ?_
        · rintro ⟨assertion, went, -⟩
          rw [searched, outcome] at went
          cases went
        · rintro ⟨before, key, after, rfl, -, found, -⟩
          exact none key (mem_append_right _ mem_cons_self) found
      · rw [found_iff_of_decides (mem_append_right before mem_cons_self)
          (fun holds => (key.holding holds).2 handle allowed) (searched.trans outcome)]
        constructor
        · exact fun holds => ⟨before, key, after, rfl, passed, found, holds⟩
        · rintro ⟨before', key', after', same, passed', found', holds⟩
          have key_eq := first_unique (fun key : SecurityKey crypto interaction request =>
            Invites crypto request handle key.token) passed found same passed' found'
          exact key_eq ▸ holds
    · rw [decide_eq_false several]
      exact first fun _ _ => several

end Keys

/-! ### A key that demands verification and lacks the credential -/

section Sample

def zeroHash : Hash := ⟨List.replicate 32 0, length_replicate⟩

def zeroCrypto : Crypto where
  sha256 _ := zeroHash
  hmac _ _ := zeroHash
  agree _ _ _ := .error (.malformed "no curve")

def nobodyAsked : Interaction := ⟨none, 0⟩

def touchRequest : AssertionRequest where
  application := "ssh:"
  message := [1]
  allowCredential := some [7]
  userPresence := true
  userVerification := false
  application_length := by decide +kernel
  allowCredential_length := by
    rintro handle ⟨⟩
    decide

def infoMessage : Message := ⟨cmdCbor, [ctap2GetInfo]⟩

/-- A token with a fingerprint reader that verifies before it says anything of credentials, and
holds none. -/
def alwaysVerifying : Token where
  init := .ok capflagCbor
  answer sent :=
    if sent.getLast? = some infoMessage then
      .ok (ctap2Ok :: (Value.map [(.uint 0x04, .map [(.text "uv", .bool true)])]).encode)
    else if infoMessage ∈ sent then .ok [ctap2ErrNoCredentials]
    else .ok [ctap2ErrPuatRequired]

/-- A token that holds the credential and gives the assertion for a touch. -/
def holder : Token where
  init := .ok capflagCbor
  answer _ := .ok (ctap2Ok :: (Value.map [(.uint 0x02, .bytes (List.replicate 37 1)),
    (.uint 0x03, .bytes [9])]).encode)

/-- Unless it is asked what it can do, the token answers with one status byte. -/
theorem alwaysVerifying_answer (sent : List Message) {message : Message}
    (other : message ≠ infoMessage) :
    ∃ status, alwaysVerifying.answer (sent ++ [message]) = .ok [status] ∧ status ≠ ctap2Ok := by
  have last : ¬(sent ++ [message]).getLast? = some infoMessage := by
    rw [getLast?_concat]
    exact fun same => other (Option.some.inj same)
  dsimp only [alwaysVerifying]
  rw [if_neg last]
  split
  · exact ⟨_, rfl, by decide⟩
  · exact ⟨_, rfl, by decide⟩

theorem alwaysVerifying_lacks : Lacks zeroCrypto touchRequest alwaysVerifying := by
  have asks (payload : List UInt8) :
      (⟨cmdCbor, ctap2GetAssertion :: payload⟩ : Message) ≠ infoMessage := by
    intro same
    exact absurd (cons.inj (Message.mk.inj same).2).1 (by decide)
  have silent {message : Message} (other : message ≠ infoMessage) (sent : List Message)
      (rest : List UInt8) : alwaysVerifying.answer (sent ++ [message]) ≠ .ok (ctap2Ok :: rest) := by
    intro granted
    obtain ⟨status, answered, refused⟩ := alwaysVerifying_answer sent other
    rw [answered] at granted
    exact refused (cons.inj (Except.ok.inj granted)).1
  have short {message : Message} (u2f : message.command = cmdMsg) (sent : List Message)
      (reply : List UInt8) (replied : alwaysVerifying.answer (sent ++ [message]) = .ok reply)
      (status : Nat) : statusWord reply ≠ .ok status := by
    have other : message ≠ infoMessage := by
      intro same
      rw [same] at u2f
      exact absurd u2f (by decide)
    obtain ⟨code, answered, -⟩ := alwaysVerifying_answer sent other
    rw [answered] at replied
    cases replied
    exact fun impossible => by cases impossible
  exact {
    probe := fun sent rest => silent (asks _) sent rest
    ask := fun sent _ rest => silent (asks _) sent rest
    check := fun _ _ authenticates sent reply replied => short authenticates.1 sent reply replied _
    sign := fun _ _ authenticates sent reply replied => short authenticates.1 sent reply replied _ }

def alwaysVerifyingKey : SecurityKey zeroCrypto nobodyAsked touchRequest where
  token := alwaysVerifying
  holds := false
  holding impossible := by cases impossible
  lacking _ := alwaysVerifying_lacks
  opening impossible := by cases impossible
  answering sent := by
    dsimp only [alwaysVerifying]
    split
    · exact fun impossible => by cases impossible
    · split
      · exact fun impossible => by cases impossible
      · exact fun impossible => by cases impossible

theorem holder_holdsAt (sent : List Message) :
    HoldsAt zeroCrypto nobodyAsked touchRequest holder sent := by
  refine .granted ⟨capflagCbor, rfl, by decide⟩ rfl rfl ⟨_, ⟨[9], 1, 0x01010101⟩, rfl, ?_⟩
  decide +kernel

def holderKey : SecurityKey zeroCrypto nobodyAsked touchRequest where
  token := holder
  holds := true
  holding _ := ⟨holder_holdsAt [], fun _ _ => holder_holdsAt _⟩
  lacking impossible := by cases impossible
  opening impossible := by cases impossible
  answering _ impossible := by cases impossible

theorem alwaysVerifying_invites {handle : List UInt8} :
    Invites zeroCrypto touchRequest handle alwaysVerifying := by
  refine .inl ⟨⟨capflagCbor, rfl, by decide⟩, ctap2ErrPuatRequired, [], ?_, .inr rfl⟩
  have other : probeMessage zeroCrypto touchRequest ≠ infoMessage := by
    intro same
    exact absurd (cons.inj (Message.mk.inj same).2).1 (by decide)
  dsimp only [alwaysVerifying]
  rw [getLast?_singleton, if_neg (fun last => other (Option.some.inj last)),
    if_neg (fun among => other (mem_singleton.mp among).symm)]

/-- A key that demands verification of the probe and lacks the credential hides the key behind it
that holds the credential. -/
theorem holder_not_found :
    ∃ keys : List (SecurityKey zeroCrypto nobodyAsked touchRequest),
      (∃ key ∈ keys, key.holds = true) ∧ ¬Found zeroCrypto nobodyAsked touchRequest keys := by
  refine ⟨[alwaysVerifyingKey, holderKey], ⟨holderKey, by simp, rfl⟩, ?_⟩
  rintro ⟨assertion, went, -⟩
  have searched : getAssertionFrom zeroCrypto nobodyAsked touchRequest [alwaysVerifying, holder]
      = search zeroCrypto nobodyAsked touchRequest [7] [alwaysVerifying, holder] := rfl
  have outcome : getAssertionFrom zeroCrypto nobodyAsked touchRequest [alwaysVerifying, holder]
      = .ok assertion := went
  rw [searched, search_invited _ alwaysVerifying_invites] at outcome
  exact getAssertion_lacks alwaysVerifying_lacks (Prod.ext outcome rfl)

/-- With the holder in front, the outcome is decided by it. -/
theorem found_iff_sample :
    Found zeroCrypto nobodyAsked touchRequest [holderKey, alwaysVerifyingKey] ↔
      FirstInvitedHolds zeroCrypto nobodyAsked touchRequest [holderKey, alwaysVerifyingKey] :=
  found_iff [holderKey, alwaysVerifyingKey] ⟨holderKey, mem_cons_self, rfl⟩

end Sample

end Oryxis.Fido2

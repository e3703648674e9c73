/-
This file carries the settling of Telnet options from commands to bytes: two parties,
each a negotiator or some other party that keeps to the Q method, whatever it agrees to
and asks for, joined by two byte streams that are delivered in pieces.

A stream is read for its commands without regard to what they do. What a party writes is
whole: it leaves a reader where it was, between commands, and carries the commands it was
written for. So each delivery of bytes is a run of the conversation of commands, and what
holds of that holds on the wire.
-/

import Oryxis.Telnet.Settling

namespace Oryxis.Telnet

open Library

/-! ### The commands a stream carries -/

/-- Where a reader of the stream is, and how much of a subnegotiation it has kept. -/
structure Position where
  state : ParseState
  held : Nat

/-- One byte moves the reader, and may end a command; `full` tells when the reader gives up a
subnegotiation. -/
def Position.scan (full : Nat → Bool) (position : Position) (byte : UInt8) :
    Position × Option Command :=
  match position.state with
  | .data => (⟨if byte = iac then .iac else .data, position.held⟩, none)
  | .iac =>
    if byte = iac then (⟨.data, position.held⟩, none)
    else match Verb.ofByte byte with
      | some verb => (⟨.command verb, position.held⟩, none)
      | none => (⟨if byte = sb then .subnegOption else .data, position.held⟩, none)
  | .command verb => (⟨.data, position.held⟩, some ⟨verb, byte⟩)
  | .subnegOption => (⟨.subnegData, 0⟩, none)
  | .subnegData =>
    if byte = iac then (⟨.subnegIac, position.held⟩, none)
    else if full position.held then (⟨.data, 0⟩, none)
    else (⟨.subnegData, position.held + 1⟩, none)
  | .subnegIac =>
    if byte = iac then
      if full position.held then (⟨.data, 0⟩, none) else (⟨.subnegData, position.held + 1⟩, none)
    else if byte = se then (⟨.data, 0⟩, none)
    else match Verb.ofByte byte with
      | some verb => (⟨.command verb, 0⟩, none)
      | none => (⟨.data, 0⟩, none)

def Position.scanAll (full : Nat → Bool) (position : Position) :
    List UInt8 → Position × List Command
  | [] => (position, [])
  | byte :: rest =>
    let scanned := position.scan full byte
    let later := scanned.1.scanAll full rest
    (later.1, scanned.2.toList ++ later.2)

theorem Position.scanAll_append (full : Nat → Bool) (position : Position)
    (first second : List UInt8) :
    position.scanAll full (first ++ second) =
      (((position.scanAll full first).1.scanAll full second).1,
        (position.scanAll full first).2 ++ ((position.scanAll full first).1.scanAll full second).2) := by
  induction first generalizing position with
  | nil => rfl
  | cons byte rest inductionHypothesis =>
    rw [List.cons_append, scanAll, inductionHypothesis, scanAll, List.append_assoc]

/-- Read between commands, the bytes carry these commands and end between commands. -/
def Carries (bytes : List UInt8) (said : List Command) : Prop :=
  ∀ full held, ∃ heldAfter, Position.scanAll full ⟨.data, held⟩ bytes = (⟨.data, heldAfter⟩, said)

theorem carries_nil : Carries [] [] := fun _ held => ⟨held, rfl⟩

variable {first second : List UInt8} {said : List Command}

theorem Carries.append {saidAfter : List Command} (carried : Carries first said)
    (carriedAfter : Carries second saidAfter) :
    Carries (first ++ second) (said ++ saidAfter) := by
  intro full held
  obtain ⟨heldMiddle, readFirst⟩ := carried full held
  obtain ⟨heldAfter, readSecond⟩ := carriedAfter full heldMiddle
  exact ⟨heldAfter, by rw [Position.scanAll_append, readFirst, readSecond]⟩

theorem Carries.append_silent (silent : Carries first []) (carried : Carries second said) :
    Carries (first ++ second) said :=
  silent.append carried

theorem carries_byte {byte : UInt8} (plain : byte ≠ iac) : Carries [byte] [] :=
  fun _ held => ⟨held, by simp [Position.scanAll, Position.scan, plain]⟩

theorem carries_doubled : Carries [iac, iac] [] := fun _ held => ⟨held, rfl⟩

theorem carries_command (verb : Verb) (option : UInt8) :
    Carries (command verb option) [⟨verb, option⟩] :=
  fun _ held => ⟨held, by cases verb <;> rfl⟩

theorem carries_spoken (performs : Bool) (option : UInt8) (on : Option Bool) :
    Carries ((spoken performs option on).flatMap Command.bytes) (spoken performs option on) := by
  cases on with
  | none => exact carries_nil
  | some on =>
    show Carries (command _ option ++ []) _
    rw [List.append_nil]
    have carried := carries_command (Verb.of performs on) option
    exact carried

theorem carries_of_plain {bytes : List UInt8} (plain : ∀ byte ∈ bytes, byte ≠ iac) :
    Carries bytes [] := by
  induction bytes with
  | nil => exact carries_nil
  | cons byte rest inductionHypothesis =>
    exact (carries_byte (plain byte List.mem_cons_self)).append
      (inductionHypothesis fun later listed => plain later (List.mem_cons_of_mem _ listed))

theorem carries_presence : Carries presence [] := carries_of_plain (by decide +kernel)

theorem carries_escapeIac (body : List UInt8) : Carries (escapeIac body) [] := by
  induction body with
  | nil => exact carries_nil
  | cons byte rest inductionHypothesis =>
    rw [escapeIac]
    refine Carries.append_silent ?_ inductionHypothesis
    split
    case isTrue escaped => rw [escaped]; exact carries_doubled
    case isFalse plain => exact carries_byte plain

theorem carries_encodeInput (data : List UInt8) : Carries (encodeInput data) [] := by
  have newLine : Carries [carriageReturn, lineFeed] [] :=
    carries_of_plain (by decide +kernel)
  fun_induction encodeInput data with
  | case1 => exact carries_nil
  | case2 rest inductionHypothesis => exact carries_doubled.append inductionHypothesis
  | case3 => exact newLine
  | case4 => rename_i inductionHypothesis; exact newLine.append inductionHypothesis
  | case5 => rename_i inductionHypothesis; exact newLine.append inductionHypothesis
  | case6 => rename_i inductionHypothesis; exact newLine.append inductionHypothesis
  | case7 => rename_i inductionHypothesis; exact (carries_byte ‹_›).append inductionHypothesis

/-- A reader that gives up a subnegotiation reads the rest of its body as data. -/
theorem scanAll_body (full : Nat → Bool) (body : List UInt8) (held : Nat) {state : ParseState}
    (within : state = .subnegData ∨ state = .data) :
    ∃ heldAfter,
      Position.scanAll full ⟨state, held⟩ (escapeIac body ++ [iac, se]) = (⟨.data, heldAfter⟩, []) := by
  induction body generalizing state held with
  | nil =>
    rcases within with rfl | rfl
    · exact ⟨0, rfl⟩
    · exact ⟨held, rfl⟩
  | cons byte rest inductionHypothesis =>
    rw [escapeIac, List.append_assoc]
    by_cases escaped : byte = iac
    · rw [if_pos escaped, escaped]
      rcases within with rfl | rfl
      · by_cases given : full held
        · obtain ⟨heldAfter, read⟩ := inductionHypothesis 0 (.inr rfl)
          exact ⟨heldAfter, by simp [Position.scanAll, Position.scan, given, read]⟩
        · obtain ⟨heldAfter, read⟩ := inductionHypothesis (held + 1) (.inl rfl)
          exact ⟨heldAfter, by simp [Position.scanAll, Position.scan, given, read]⟩
      · obtain ⟨heldAfter, read⟩ := inductionHypothesis held (.inr rfl)
        exact ⟨heldAfter, by simp [Position.scanAll, Position.scan, read]⟩
    · rw [if_neg escaped]
      rcases within with rfl | rfl
      · by_cases given : full held
        · obtain ⟨heldAfter, read⟩ := inductionHypothesis 0 (.inr rfl)
          exact ⟨heldAfter, by simp [Position.scanAll, Position.scan, escaped, given, read]⟩
        · obtain ⟨heldAfter, read⟩ := inductionHypothesis (held + 1) (.inl rfl)
          exact ⟨heldAfter, by simp [Position.scanAll, Position.scan, escaped, given, read]⟩
      · obtain ⟨heldAfter, read⟩ := inductionHypothesis held (.inr rfl)
        exact ⟨heldAfter, by simp [Position.scanAll, Position.scan, escaped, read]⟩

theorem carries_subnegotiation (option : UInt8) (body : List UInt8) :
    Carries (subnegotiation option body) [] := by
  intro full held
  obtain ⟨heldAfter, read⟩ := scanAll_body full body 0 (.inl rfl)
  refine ⟨heldAfter, ?_⟩
  rw [subnegotiation, List.append_assoc]
  exact read

/-! ### The negotiator as a party -/

/-- Whether an option is agreed to, on the negotiator's own side or on the far one. -/
def Policy.accepts (policy : Policy) (performs : Bool) (option : UInt8) : Bool :=
  if performs then policy.weSupport option else policy.theySupport option

def subnegFull (held : Nat) : Bool := subnegMax ≤ held

theorem subnegFull_iff {held : Nat} : subnegFull held = true ↔ subnegMax ≤ held :=
  decide_eq_true_iff

namespace Negotiator

def options (neg : Negotiator) : Options := fun performs => if performs then neg.us else neg.him

def position (neg : Negotiator) : Position := ⟨neg.state, neg.subnegBuf.length⟩

end Negotiator

/-- What a party holds after a byte that may have ended a command, and what it answers. -/
def Options.hearAny (options : Options) (accepts : Bool → UInt8 → Bool) :
    Option Command → Options × List Command
  | none => (options, [])
  | some heard => options.hear accepts heard

namespace Negotiator

variable (policy : Policy) (neg : Negotiator)

theorem options_setUs (option : UInt8) (state : QState) :
    (neg.setUs option state).options = neg.options.set true option state := by
  funext performs other
  cases performs with
  | false => simp [options, setUs, Options.set]
  | true =>
    by_cases same : other = option
    · simp [options, setUs, Options.set, same]
    · simp [options, setUs, Options.set, same]

theorem options_setHim (option : UInt8) (state : QState) :
    (neg.setHim option state).options = neg.options.set false option state := by
  funext performs other
  cases performs with
  | true => simp [options, setHim, Options.set]
  | false =>
    by_cases same : other = option
    · simp [options, setHim, Options.set, same]
    · simp [options, setHim, Options.set, same]

/-- A command does to the options what the method says, and its answers are what it says. -/
structure Handled (policy : Policy) (neg : Negotiator) (heard : Command)
    (handled : Negotiator × List UInt8) : Prop where
  options : handled.1.options = (neg.options.hear policy.accepts heard).1
  carries : Carries handled.2 (neg.options.hear policy.accepts heard).2
  position : handled.1.position = neg.position
  raw : handled.1.raw = neg.raw

theorem carries_onLocalEnabled (option : UInt8) : Carries (neg.onLocalEnabled option) [] := by
  rw [onLocalEnabled]
  split
  · rw [nawsPacket]
    exact carries_subnegotiation _ _
  · exact carries_nil

variable {verb : Verb} {state : QState}

theorem hear_eq (performs : Bool) (option : UInt8) {on : Option Bool}
    (tells : verb.performs = !performs)
    (moved : (neg.options performs option).hear (policy.accepts performs option) verb.on =
      (state, on)) :
    neg.options.hear policy.accepts ⟨verb, option⟩ =
      (neg.options.set performs option state, spoken performs option on) := by
  simp only [Options.hear, tells, Bool.not_not, moved]

variable {policy neg}

variable {option : UInt8} {wire : List UInt8}

theorem handled_setHim (on : Option Bool) (tells : verb.performs = true)
    (moved : (neg.him option).hear (policy.theySupport option) verb.on = (state, on))
    (carries : Carries wire (spoken false option on)) :
    Handled policy neg ⟨verb, option⟩ (neg.setHim option state, wire) := by
  have heard := hear_eq policy neg false option tells moved
  exact ⟨by rw [heard, options_setHim], by rw [heard]; exact carries, rfl, rfl⟩

theorem handled_keepHim (on : Option Bool) (tells : verb.performs = true)
    (moved : (neg.him option).hear (policy.theySupport option) verb.on = (neg.him option, on))
    (carries : Carries wire (spoken false option on)) :
    Handled policy neg ⟨verb, option⟩ (neg, wire) := by
  have same : neg.setHim option (neg.him option) = neg := by
    rw [setHim, Function.update_eq_self]
  have handled := handled_setHim on tells moved carries
  rwa [same] at handled

theorem handled_setUs (on : Option Bool) (tells : verb.performs = false)
    (moved : (neg.us option).hear (policy.weSupport option) verb.on = (state, on))
    (carries : Carries wire (spoken true option on)) :
    Handled policy neg ⟨verb, option⟩ (neg.setUs option state, wire) := by
  have heard := hear_eq policy neg true option tells moved
  exact ⟨by rw [heard, options_setUs], by rw [heard]; exact carries, rfl, rfl⟩

theorem handled_keepUs (on : Option Bool) (tells : verb.performs = false)
    (moved : (neg.us option).hear (policy.weSupport option) verb.on = (neg.us option, on))
    (carries : Carries wire (spoken true option on)) :
    Handled policy neg ⟨verb, option⟩ (neg, wire) := by
  have same : neg.setUs option (neg.us option) = neg := by
    rw [setUs, Function.update_eq_self]
  have handled := handled_setUs on tells moved carries
  rwa [same] at handled

variable (policy neg)

theorem handleNegotiation_handled (verb : Verb) (option : UInt8) :
    Handled policy neg ⟨verb, option⟩ (neg.handleNegotiation policy verb option) := by
  cases verb with
  | will =>
    cases held : neg.him option <;> simp only [handleNegotiation, held]
    case no =>
      split
      case isTrue agreed =>
        exact handled_setHim (some _) rfl (by rw [held, agreed]; rfl)
          (carries_command _ _)
      case isFalse refused =>
        exact handled_keepHim (some _) rfl
          (by rw [held, Bool.eq_false_iff.mpr refused]; rfl) (carries_command _ _)
    case yes => exact handled_keepHim none rfl (by rw [held]; rfl) carries_nil
    case wantNo => exact handled_setHim none rfl (by rw [held]; rfl) carries_nil
    case wantNoOpposite => exact handled_setHim none rfl (by rw [held]; rfl) carries_nil
    case wantYes => exact handled_setHim none rfl (by rw [held]; rfl) carries_nil
    case wantYesOpposite =>
      exact handled_setHim (some _) rfl (by rw [held]; rfl) (carries_command _ _)
  | wont =>
    cases held : neg.him option <;> simp only [handleNegotiation, held]
    case no => exact handled_keepHim none rfl (by rw [held]; rfl) carries_nil
    case yes => exact handled_setHim (some _) rfl (by rw [held]; rfl) (carries_command _ _)
    case wantNo => exact handled_setHim none rfl (by rw [held]; rfl) carries_nil
    case wantNoOpposite =>
      exact handled_setHim (some _) rfl (by rw [held]; rfl) (carries_command _ _)
    case wantYes => exact handled_setHim none rfl (by rw [held]; rfl) carries_nil
    case wantYesOpposite => exact handled_setHim none rfl (by rw [held]; rfl) carries_nil
  | «do» =>
    cases held : neg.us option <;> simp only [handleNegotiation, held]
    case no =>
      split
      case isTrue agreed =>
        exact handled_setUs (some _) rfl (by rw [held, agreed]; rfl)
          ((carries_command _ _).append (carries_onLocalEnabled neg option))
      case isFalse refused =>
        exact handled_keepUs (some _) rfl
          (by rw [held, Bool.eq_false_iff.mpr refused]; rfl) (carries_command _ _)
    case yes => exact handled_keepUs none rfl (by rw [held]; rfl) carries_nil
    case wantNo => exact handled_setUs none rfl (by rw [held]; rfl) carries_nil
    case wantNoOpposite =>
      exact handled_setUs none rfl (by rw [held]; rfl) (carries_onLocalEnabled neg option)
    case wantYes =>
      exact handled_setUs none rfl (by rw [held]; rfl) (carries_onLocalEnabled neg option)
    case wantYesOpposite =>
      exact handled_setUs (some _) rfl (by rw [held]; rfl) (carries_command _ _)
  | dont =>
    cases held : neg.us option <;> simp only [handleNegotiation, held]
    case no => exact handled_keepUs none rfl (by rw [held]; rfl) carries_nil
    case yes => exact handled_setUs (some _) rfl (by rw [held]; rfl) (carries_command _ _)
    case wantNo => exact handled_setUs none rfl (by rw [held]; rfl) carries_nil
    case wantNoOpposite =>
      exact handled_setUs (some _) rfl (by rw [held]; rfl) (carries_command _ _)
    case wantYes => exact handled_setUs none rfl (by rw [held]; rfl) carries_nil
    case wantYesOpposite => exact handled_setUs none rfl (by rw [held]; rfl) carries_nil

/-- What a byte does: it moves the reader, and a command that it ends is handled. -/
structure Received (policy : Policy) (neg : Negotiator) (byte : UInt8)
    (received : Negotiator × Step) : Prop where
  options : received.1.options =
    (neg.options.hearAny policy.accepts (neg.position.scan subnegFull byte).2).1
  carries : Carries received.2.wire
    (neg.options.hearAny policy.accepts (neg.position.scan subnegFull byte).2).2
  position : received.1.position = (neg.position.scan subnegFull byte).1
  raw : received.1.raw = neg.raw

theorem carries_handleSubnegotiation : Carries neg.handleSubnegotiation.2 [] := by
  rw [handleSubnegotiation]
  split
  · exact carries_subnegotiation _ _
  · split
    · exact carries_subnegotiation _ _
    · exact carries_nil

theorem received_of_silent {policy : Policy} {neg : Negotiator} {byte : UInt8}
    {received : Negotiator × Step} {after : Position}
    (scanned : neg.position.scan subnegFull byte = (after, none))
    (carries : Carries received.2.wire []) (options : received.1.options = neg.options)
    (position : received.1.position = after) (raw : received.1.raw = neg.raw) :
    Received policy neg byte received :=
  ⟨by rw [scanned]; exact options, by rw [scanned]; exact carries, by rw [scanned]; exact position,
    raw⟩

theorem receiveByte_received (byte : UInt8) :
    Received policy neg byte (neg.receiveByte policy byte) := by
  obtain ⟨scanned, isScanned, moves⟩ : ∃ scanned, neg.position.scan subnegFull byte = scanned ∧
      scanned = (Position.mk neg.state neg.subnegBuf.length).scan subnegFull byte :=
    ⟨_, rfl, rfl⟩
  cases here : neg.state with
  | data =>
    simp only [receiveByte, here]
    rw [here] at moves
    split
    case isTrue escaped =>
      rw [escaped] at isScanned moves ⊢
      exact received_of_silent (isScanned.trans moves) carries_nil rfl rfl rfl
    case isFalse plain =>
      simp only [Position.scan, if_neg plain] at moves
      split
      · exact received_of_silent (isScanned.trans moves) carries_nil rfl (by rw [← here]; rfl) rfl
      · exact received_of_silent (isScanned.trans moves) carries_nil rfl (by rw [← here]; rfl) rfl
  | iac =>
    simp only [receiveByte, here]
    rw [here] at moves
    split
    case isTrue escaped =>
      rw [escaped] at isScanned moves ⊢
      exact received_of_silent (isScanned.trans moves) carries_nil rfl rfl rfl
    case isFalse plain =>
      simp only [Position.scan, plain, if_false] at moves
      cases verb : Verb.ofByte byte with
      | some verb =>
        simp only [verb] at moves
        exact received_of_silent (isScanned.trans moves) carries_nil rfl rfl rfl
      | none =>
        simp only [verb] at moves
        dsimp only
        split
        case isTrue opens =>
          rw [if_pos opens] at moves
          exact received_of_silent (isScanned.trans moves) carries_nil rfl rfl rfl
        case isFalse other =>
          rw [if_neg other] at moves
          split
          · exact received_of_silent (isScanned.trans moves) carries_presence rfl rfl rfl
          · exact received_of_silent (isScanned.trans moves) carries_nil rfl rfl rfl
  | command verb =>
    have handled := handleNegotiation_handled policy neg verb byte
    rw [here] at moves
    simp only [receiveByte, here]
    refine ⟨?_, ?_, ?_, handled.raw⟩ <;> rw [isScanned, moves]
    · exact handled.options
    · exact handled.carries
    · show Position.mk .data (neg.handleNegotiation policy verb byte).1.position.held = _
      rw [handled.position]
      rfl
  | subnegOption =>
    rw [here] at moves
    simp only [receiveByte, here]
    exact received_of_silent (isScanned.trans moves) carries_nil rfl rfl rfl
  | subnegData =>
    simp only [receiveByte, here]
    rw [here] at moves
    simp only [Position.scan] at moves
    split
    case isTrue escaped =>
      rw [if_pos escaped] at moves
      exact received_of_silent (isScanned.trans moves) carries_nil rfl rfl rfl
    case isFalse plain =>
      rw [if_neg plain] at moves
      split
      case isTrue given =>
        rw [if_pos (subnegFull_iff.mpr given)] at moves
        exact received_of_silent (isScanned.trans moves) carries_nil rfl rfl rfl
      case isFalse kept =>
        rw [if_neg (mt subnegFull_iff.mp kept)] at moves
        exact received_of_silent (isScanned.trans moves) carries_nil rfl
          (by simp [position, here]) rfl
  | subnegIac =>
    simp only [receiveByte, here]
    rw [here] at moves
    simp only [Position.scan] at moves
    split
    case isTrue escaped =>
      rw [if_pos escaped] at moves
      split
      case isTrue given =>
        rw [if_pos (subnegFull_iff.mpr given)] at moves
        exact received_of_silent (isScanned.trans moves) carries_nil rfl rfl rfl
      case isFalse kept =>
        rw [if_neg (mt subnegFull_iff.mp kept)] at moves
        exact received_of_silent (isScanned.trans moves) carries_nil rfl (by simp [position]) rfl
    case isFalse plain =>
      rw [if_neg plain] at moves
      split
      case isTrue ends =>
        rw [if_pos ends] at moves
        exact received_of_silent (isScanned.trans moves) (carries_handleSubnegotiation neg) rfl rfl rfl
      case isFalse other =>
        rw [if_neg other] at moves
        cases verb : Verb.ofByte byte with
        | some verb =>
          simp only [verb] at moves
          exact received_of_silent (isScanned.trans moves) carries_nil rfl rfl rfl
        | none =>
          simp only [verb] at moves
          exact received_of_silent (isScanned.trans moves) carries_nil rfl rfl rfl

theorem receiveBytes_cons (byte : UInt8) (rest : List UInt8) :
    neg.receiveBytes policy (byte :: rest) =
      (((neg.receiveByte policy byte).1.receiveBytes policy rest).1,
        ⟨(neg.receiveByte policy byte).2.app ++
          ((neg.receiveByte policy byte).1.receiveBytes policy rest).2.app,
        (neg.receiveByte policy byte).2.wire ++
          ((neg.receiveByte policy byte).1.receiveBytes policy rest).2.wire⟩) := rfl

end Negotiator

/-! ### Parties -/

/-- A party that keeps to the method, and may agree to anything and ask for anything. -/
structure Peer where
  options : Options
  position : Position
  full : Nat → Bool

def Peer.receive (accepts : Bool → UInt8 → Bool) (peer : Peer) : List UInt8 → Peer × List UInt8
  | [] => (peer, [])
  | byte :: rest =>
    let scanned := peer.position.scan peer.full byte
    let moved := peer.options.hearAny accepts scanned.2
    let later := Peer.receive accepts ⟨moved.1, scanned.1, peer.full⟩ rest
    (later.1, moved.2.flatMap Command.bytes ++ later.2)

inductive Party where
  | negotiator (policy : Policy) (neg : Negotiator)
  | peer (peer : Peer)

namespace Party

def options : Party → Options
  | .negotiator _ neg => neg.options
  | .peer other => other.options

def position : Party → Position
  | .negotiator _ neg => neg.position
  | .peer other => other.position

def full : Party → Nat → Bool
  | .negotiator _ _ => subnegFull
  | .peer other => other.full

/-- A negotiator goes by its policy; what a peer accepts is up to it. -/
def accepts (free : Bool → UInt8 → Bool) : Party → Bool → UInt8 → Bool
  | .negotiator policy _ => policy.accepts
  | .peer _ => free

def receive (free : Bool → UInt8 → Bool) : Party → List UInt8 → Party × List UInt8
  | .negotiator policy neg, bytes =>
    (.negotiator policy (neg.receive policy bytes).1, (neg.receive policy bytes).2.wire)
  | .peer other, bytes => (.peer (other.receive free bytes).1, (other.receive free bytes).2)

/-- Not a bare socket. -/
def Negotiates : Party → Prop
  | .negotiator _ neg => neg.raw = false
  | .peer _ => True

/-- The commands that bytes bring to a party. -/
def heard (party : Party) (bytes : List UInt8) : List Command :=
  (party.position.scanAll party.full bytes).2

/-- What a byte does to a party. -/
structure Receives (free : Bool → UInt8 → Bool) (party : Party) (byte : UInt8) (next : Party)
    (wire : List UInt8) : Prop where
  options : next.options = (party.options.hearAny (party.accepts free)
    (party.position.scan party.full byte).2).1
  carries : Carries wire (party.options.hearAny (party.accepts free)
    (party.position.scan party.full byte).2).2
  position : next.position = (party.position.scan party.full byte).1
  full : next.full = party.full
  negotiates : next.Negotiates

end Party

theorem carries_hearAny (options : Options) (accepts : Bool → UInt8 → Bool)
    (heard : Option Command) :
    Carries ((options.hearAny accepts heard).2.flatMap Command.bytes)
      (options.hearAny accepts heard).2 := by
  cases heard with
  | none => exact carries_nil
  | some heard => exact carries_spoken _ _ _

variable {party : Party}

theorem Party.receive_nil (free : Bool → UInt8 → Bool) (negotiates : party.Negotiates) :
    party.receive free [] = (party, []) := by
  cases party with
  | negotiator policy neg =>
    have notRaw : neg.raw = false := negotiates
    simp [receive, Negotiator.receive, notRaw, Negotiator.receiveBytes]
  | peer peer => rfl

/-- A party takes bytes one after the other. -/
theorem Party.receive_cons (free : Bool → UInt8 → Bool) (negotiates : party.Negotiates)
    (byte : UInt8) (rest : List UInt8) :
    ∃ next wire, party.Receives free byte next wire ∧
      party.receive free (byte :: rest) =
        ((next.receive free rest).1, wire ++ (next.receive free rest).2) := by
  cases party with
  | negotiator policy neg =>
    have notRaw : neg.raw = false := negotiates
    have received := Negotiator.receiveByte_received policy neg byte
    have stillNotRaw : (neg.receiveByte policy byte).1.raw = false := received.raw.trans notRaw
    refine ⟨.negotiator policy (neg.receiveByte policy byte).1, (neg.receiveByte policy byte).2.wire,
      ⟨received.options, received.carries, received.position, rfl, stillNotRaw⟩, ?_⟩
    simp only [receive, Negotiator.receive, notRaw, stillNotRaw, Bool.false_eq_true, if_false,
      Negotiator.receiveBytes_cons]
  | peer peer =>
    refine ⟨.peer ⟨(peer.options.hearAny free (peer.position.scan peer.full byte).2).1,
        (peer.position.scan peer.full byte).1, peer.full⟩,
      (peer.options.hearAny free (peer.position.scan peer.full byte).2).2.flatMap Command.bytes,
      ⟨rfl, ?_, rfl, rfl, trivial⟩, rfl⟩
    exact carries_hearAny _ _ _

end Oryxis.Telnet

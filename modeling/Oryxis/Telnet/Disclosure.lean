/-
This file is about what a negotiator discloses: the type of its terminal and the name of
its user, each in a reply to a subnegotiation that asks for it.

Either is to be told only while its option is on. The negotiator takes a subnegotiation
for what it is whatever the options are set to, so it is up to the other side: a reply
goes out exactly where a request comes in, and an option is on exactly where the last
the other side said of it was that it be. What it says and asks for can be read off the
bytes alone, however they are cut.
-/

import Oryxis.Telnet.Wire

namespace Oryxis.Telnet

open Library List

/-! ### What is disclosed -/

/-- The options whose replies go out with these bytes. -/
def replies (wire : List UInt8) : List UInt8 :=
  [optTtype, optNewEnviron].filter fun option => [iac, sb, option, ttypeIs].isPrefixOf wire

/-- What the negotiator held of an option when it replied to a request about it. -/
structure Disclosed where
  option : UInt8
  held : QState
  deriving DecidableEq, Repr

namespace Negotiator

/-- What is disclosed on reading the bytes. -/
def disclosures (policy : Policy) (neg : Negotiator) : List UInt8 → List Disclosed
  | [] => []
  | byte :: rest =>
    let received := neg.receiveByte policy byte
    (replies received.2.wire).map (fun option => ⟨option, neg.us option⟩) ++
      received.1.disclosures policy rest

end Negotiator

/-- What happens to a negotiator. -/
inductive Turn where
  | receive (chunk : List UInt8)
  | resize (cols rows : UInt16)

def Turn.bytes : Turn → List UInt8
  | .receive chunk => chunk
  | .resize _ _ => []

/-- A negotiator, and what it has disclosed so far. -/
structure Exchange where
  neg : Negotiator
  disclosed : List Disclosed

namespace Exchange

def turn (policy : Policy) (exchange : Exchange) : Turn → Exchange
  | .receive chunk =>
    ⟨(exchange.neg.receive policy chunk).1, exchange.disclosed ++
      if exchange.neg.raw then [] else exchange.neg.disclosures policy chunk⟩
  | .resize cols rows => { exchange with neg := (exchange.neg.setWindow cols rows).1 }

def turns (policy : Policy) (exchange : Exchange) (all : List Turn) : Exchange :=
  all.foldl (turn policy) exchange

/-- Whatever was disclosed, its option was on. -/
def DisclosesAgreed (exchange : Exchange) : Prop := ∀ one ∈ exchange.disclosed, one.held = .yes

end Exchange

/-! ### What the other side says and asks for -/

inductive Notice where
  | command (said : Command)
  | asks (option : UInt8)

/-- A reader of the stream that also keeps which option a subnegotiation is about, and the first
byte of its body. -/
structure Reader where
  position : Position
  option : UInt8
  first : Option UInt8

namespace Reader

def start : Reader := ⟨⟨.data, 0⟩, 0, none⟩

/-- A body that begins so asks for what its option discloses. -/
def asksFor (option : UInt8) (first : Option UInt8) : Bool :=
  (option = optTtype ∧ first = some ttypeSend) ∨ (option = optNewEnviron ∧ first = some envSend)

def notice (reader : Reader) (byte : UInt8) : Option Notice :=
  match (reader.position.scan subnegFull byte).2 with
  | some said => some (.command said)
  | none =>
    if reader.position.state = .subnegIac ∧ byte = se ∧ asksFor reader.option reader.first then
      some (.asks reader.option)
    else none

def next (reader : Reader) (byte : UInt8) : Reader :=
  let after := (reader.position.scan subnegFull byte).1
  { position := after
    option := if reader.position.state = .subnegOption then byte else reader.option
    first := if after.held = 0 then none else reader.first.or (some byte) }

def notices (reader : Reader) : List UInt8 → List Notice
  | [] => []
  | byte :: rest => (reader.notice byte).toList ++ (reader.next byte).notices rest

def read (reader : Reader) (bytes : List UInt8) : Reader := bytes.foldl next reader

theorem notices_append (reader : Reader) (first second : List UInt8) :
    reader.notices (first ++ second) =
      reader.notices first ++ (reader.read first).notices second := by
  induction first generalizing reader with
  | nil => rfl
  | cons byte rest inductionHypothesis =>
    rw [cons_append, notices, notices, inductionHypothesis, append_assoc]
    rfl

end Reader

/-- One more notice, and whether the last that was said of the option is that it be on. -/
def agree (option : UInt8) (agreed : Bool) : Notice → Bool
  | .command said =>
    if said.option = option then
      match said.verb with
      | .do => true
      | .dont => false
      | .will | .wont => agreed
    else agreed
  | .asks _ => agreed

/-- Whether the last the other side said of our option is that it be on. -/
def agreed (option : UInt8) (notices : List Notice) : Bool := notices.foldl (agree option) false

/-- After what was told before, the other side asks only about options it has agreed to. -/
def AsksAgreed (before notices : List Notice) : Prop :=
  ∀ earlier option later, notices = earlier ++ .asks option :: later →
    agreed option (before ++ earlier) = true

theorem asksAgreed_nil (before : List Notice) : AsksAgreed before [] := by
  intro earlier option later split
  simp at split

theorem asksAgreed_cons (before : List Notice) (notice : Notice) (rest : List Notice) :
    AsksAgreed before (notice :: rest) ↔
      (∀ option, notice = .asks option → agreed option before = true) ∧
        AsksAgreed (before ++ [notice]) rest := by
  constructor
  · intro asks
    refine ⟨?_, fun earlier option later split => ?_⟩
    · rintro option rfl
      have first := asks [] option rest rfl
      rwa [append_nil] at first
    · rw [append_assoc]
      exact asks (notice :: earlier) option later (by rw [split]; rfl)
  · rintro ⟨first, others⟩ earlier option later split
    cases earlier with
    | nil =>
      cases split
      rw [append_nil]
      exact first option rfl
    | cons one earlier =>
      cases split
      have other := others earlier option later rfl
      rwa [append_assoc] at other

/-! ### A byte -/

namespace Negotiator

variable (policy : Policy) (neg : Negotiator)

/-- The reader a negotiator is of its own stream. -/
def reader : Reader := ⟨neg.position, neg.subnegOption, neg.subnegBuf.head?⟩

/-- A command leaves what was read of a subnegotiation. -/
theorem subneg_handleNegotiation (verb : Verb) (option : UInt8) :
    (neg.handleNegotiation policy verb option).1.subnegBuf = neg.subnegBuf ∧
      (neg.handleNegotiation policy verb option).1.subnegOption = neg.subnegOption := by
  unfold handleNegotiation
  cases verb with
  | will | wont =>
    dsimp only
    cases neg.him option <;> dsimp only
    all_goals first | exact ⟨rfl, rfl⟩ | (split <;> exact ⟨rfl, rfl⟩)
  | «do» | dont =>
    dsimp only
    cases neg.us option <;> dsimp only
    all_goals first | exact ⟨rfl, rfl⟩ | (split <;> exact ⟨rfl, rfl⟩)

/-- What a byte does to what was read of a subnegotiation. -/
theorem subneg_receiveByte (byte : UInt8) :
    ((neg.receiveByte policy byte).1.subnegBuf = neg.subnegBuf ∨
      (neg.receiveByte policy byte).1.subnegBuf = [] ∨
      (neg.receiveByte policy byte).1.subnegBuf = neg.subnegBuf ++ [byte]) ∧
    (neg.receiveByte policy byte).1.subnegOption =
      if neg.state = .subnegOption then byte else neg.subnegOption := by
  cases here : neg.state with
  | data =>
    simp only [receiveByte, here]
    split
    · exact ⟨.inl rfl, rfl⟩
    · split <;> exact ⟨.inl rfl, rfl⟩
  | iac =>
    simp only [receiveByte, here]
    split
    · exact ⟨.inl rfl, rfl⟩
    · split
      · exact ⟨.inl rfl, rfl⟩
      · split
        · exact ⟨.inl rfl, rfl⟩
        · split <;> exact ⟨.inl rfl, rfl⟩
  | command verb =>
    simp only [receiveByte, here]
    exact ⟨.inl (subneg_handleNegotiation policy neg verb byte).1,
      (subneg_handleNegotiation policy neg verb byte).2⟩
  | subnegOption =>
    simp only [receiveByte, here]
    exact ⟨.inr (.inl trivial), rfl⟩
  | subnegData =>
    simp only [receiveByte, here]
    split
    · exact ⟨.inl rfl, rfl⟩
    · split
      · exact ⟨.inr (.inl rfl), rfl⟩
      · exact ⟨.inr (.inr rfl), rfl⟩
  | subnegIac =>
    simp only [receiveByte, here]
    split
    case isTrue escaped =>
      split
      · exact ⟨.inr (.inl rfl), rfl⟩
      · exact ⟨.inr (.inr (by rw [escaped])), rfl⟩
    case isFalse =>
      split
      · exact ⟨.inr (.inl rfl), rfl⟩
      · split
        · exact ⟨.inr (.inl rfl), rfl⟩
        · exact ⟨.inr (.inl rfl), rfl⟩

theorem reader_receiveByte (byte : UInt8) :
    (neg.receiveByte policy byte).1.reader = neg.reader.next byte := by
  have position := (receiveByte_received policy neg byte).position
  obtain ⟨buffer, option⟩ := subneg_receiveByte policy neg byte
  have held : (neg.position.scan subnegFull byte).1.held =
      (neg.receiveByte policy byte).1.subnegBuf.length := by
    rw [← position]
    rfl
  have first : (neg.receiveByte policy byte).1.subnegBuf.head? =
      if (neg.receiveByte policy byte).1.subnegBuf.length = 0 then none
      else neg.subnegBuf.head?.or (some byte) := by
    rcases buffer with kept | cleared | longer
    · rw [kept]
      cases neg.subnegBuf <;> rfl
    · rw [cleared]
      rfl
    · rw [longer]
      cases neg.subnegBuf <;> rfl
  rw [reader, Reader.next, position, option, first]
  simp only [reader, held]
  rfl

/-! ### What a byte discloses -/

theorem replies_command (verb : Verb) (option : UInt8) (wire : List UInt8) :
    replies (command verb option ++ wire) = [] := by
  have different : (sb == verb.byte) = false := by
    cases verb <;> rfl
  simp [replies, command, List.isPrefixOf, different]

theorem replies_onLocalEnabled (option : UInt8) : replies (neg.onLocalEnabled option) = [] := by
  unfold onLocalEnabled
  split
  · rfl
  · rfl

theorem replies_handleNegotiation (verb : Verb) (option : UInt8) :
    replies (neg.handleNegotiation policy verb option).2 = [] := by
  have alone (verb : Verb) : replies (command verb option) = [] := by
    rw [← append_nil (command verb option)]
    exact replies_command verb option []
  have enabled := replies_onLocalEnabled neg option
  have both := replies_command .will option (neg.onLocalEnabled option)
  unfold handleNegotiation
  cases verb with
  | will | wont =>
    dsimp only
    cases neg.him option <;> dsimp only
    all_goals first | rfl | exact alone _ | (split <;> exact alone _)
  | «do» | dont =>
    dsimp only
    cases neg.us option <;> dsimp only
    all_goals first | rfl | exact alone _ | exact enabled | (split; exacts [both, alone _])

/-- A complete subnegotiation is replied to exactly where it asks for something. -/
theorem replies_handleSubnegotiation :
    replies neg.handleSubnegotiation.2 =
      if Reader.asksFor neg.subnegOption neg.subnegBuf.head? then [neg.subnegOption] else [] := by
  unfold handleSubnegotiation Reader.asksFor
  by_cases ttype : neg.subnegOption = optTtype ∧ neg.subnegBuf.head? = some ttypeSend
  · rw [if_pos ttype, if_pos (decide_eq_true (.inl ttype)), ttype.1]
    rfl
  · by_cases environ : neg.subnegOption = optNewEnviron ∧ neg.subnegBuf.head? = some envSend
    · rw [if_neg ttype, if_pos environ, if_pos (decide_eq_true (.inr environ)), environ.1]
      rfl
    · rw [if_neg ttype, if_neg environ, if_neg]
      · rfl
      · simp [ttype, environ]

/-- Where no subnegotiation ends and no command does, nothing is noticed. -/
theorem notice_of_none {byte : UInt8} (unscanned : (neg.position.scan subnegFull byte).2 = none)
    (unended : neg.state ≠ .subnegIac ∨ byte ≠ se) : neg.reader.notice byte = none := by
  rw [Reader.notice, show neg.reader.position = neg.position from rfl, unscanned]
  refine if_neg fun ⟨inside, ends, _⟩ => ?_
  exact unended.elim (· inside) (· ends)

theorem replies_receiveByte (byte : UInt8) :
    replies (neg.receiveByte policy byte).2.wire =
      match neg.reader.notice byte with
      | some (.asks option) => [option]
      | some (.command _) | none => [] := by
  cases here : neg.state with
  | data =>
    rw [notice_of_none neg (by rw [position, here]; rfl) (.inl (by simp [here]))]
    simp only [receiveByte, here]
    split
    · rfl
    · split <;> rfl
  | iac =>
    have unscanned : (neg.position.scan subnegFull byte).2 = none := by
      rw [position, here]
      simp only [Position.scan]
      split
      · rfl
      · split <;> rfl
    rw [notice_of_none neg unscanned (.inl (by simp [here]))]
    simp only [receiveByte, here]
    split
    · rfl
    · split
      · rfl
      · split
        · rfl
        · split <;> rfl
  | command verb =>
    have told : neg.reader.notice byte = some (.command ⟨verb, byte⟩) := by
      rw [Reader.notice, show neg.reader.position = neg.position from rfl, position, here]
      rfl
    rw [told]
    simp only [receiveByte, here]
    exact replies_handleNegotiation policy neg verb byte
  | subnegOption =>
    rw [notice_of_none neg (by rw [position, here]; rfl) (.inl (by simp [here]))]
    simp only [receiveByte, here]
    rfl
  | subnegData =>
    have unscanned : (neg.position.scan subnegFull byte).2 = none := by
      rw [position, here]
      simp only [Position.scan]
      split
      · rfl
      · split <;> rfl
    rw [notice_of_none neg unscanned (.inl (by simp [here]))]
    simp only [receiveByte, here]
    split
    · rfl
    · split <;> rfl
  | subnegIac =>
    have unscanned : (neg.position.scan subnegFull byte).2 = none := by
      rw [position, here]
      simp only [Position.scan]
      split
      · split <;> rfl
      · split
        · rfl
        · split <;> rfl
    by_cases ends : byte = se
    · have told : neg.reader.notice byte =
          if Reader.asksFor neg.subnegOption neg.subnegBuf.head? then
            some (.asks neg.subnegOption) else none := by
        rw [Reader.notice, show neg.reader.position = neg.position from rfl, unscanned]
        simp only [position, here, ends, true_and]
        rfl
      rw [told]
      simp only [receiveByte, here, ends]
      change replies neg.handleSubnegotiation.2 = _
      rw [replies_handleSubnegotiation]
      split <;> rfl
    · rw [notice_of_none neg unscanned (.inr ends)]
      simp only [receiveByte, here, ends]
      split
      · split <;> rfl
      · rw [if_neg not_false]
        split <;> rfl

/-! ### What is agreed to -/

/-- What a negotiator holds of an option of its own that it offered and never takes back. -/
inductive Stands : QState → Bool → Prop
  | yes : Stands .yes true
  | no : Stands .no false
  | wantYes : Stands .wantYes false

variable {held : QState} {on : Bool}

theorem Stands.iff (stands : Stands held on) :
    held = .yes ↔ on = true := by
  cases stands <;> simp

theorem Stands.hear (stands : Stands held on) (told : Bool) :
    Stands (held.hear true told).1 told := by
  cases stands <;> cases told <;> constructor

theorem us_receiveByte (byte option : UInt8) :
    (neg.receiveByte policy byte).1.us option =
      match (neg.position.scan subnegFull byte).2 with
      | some said =>
        if said.verb.performs = false ∧ said.option = option then
          ((neg.us option).hear (policy.weSupport option) said.verb.on).1
        else neg.us option
      | none => neg.us option := by
  have received := congrFun (congrFun (receiveByte_received policy neg byte).options true) option
  change (neg.receiveByte policy byte).1.us option = _ at received
  rw [received]
  cases (neg.position.scan subnegFull byte).2 with
  | none => rfl
  | some said =>
    show Options.set _ _ _ _ true option = if _ then _ else _
    rw [Options.set]
    by_cases own : said.verb.performs = false ∧ said.option = option
    · rw [if_pos own, if_pos ⟨by rw [own.1]; rfl, own.2.symm⟩, own.1, own.2]
      rfl
    · rw [if_neg own, if_neg]
      · rfl
      · rintro ⟨performs, same⟩
        exact own ⟨by simpa using performs.symm, same.symm⟩

theorem stands_receiveByte {option : UInt8} (supported : policy.weSupport option = true)
    (stands : Stands (neg.us option) on) (byte : UInt8) :
    Stands ((neg.receiveByte policy byte).1.us option)
      ((neg.reader.notice byte).toList.foldl (agree option) on) := by
  rw [us_receiveByte, Reader.notice, show neg.reader.position = neg.position from rfl]
  cases (neg.position.scan subnegFull byte).2 with
  | none =>
    dsimp only
    split
    · exact stands
    · exact stands
  | some said =>
    obtain ⟨verb, about⟩ := said
    show Stands (if _ then _ else _) (agree option on (.command ⟨verb, about⟩))
    rw [supported, agree]
    by_cases same : about = option
    · rw [if_pos same]
      cases verb with
      | «do» | dont =>
        rw [if_pos ⟨rfl, same⟩]
        exact stands.hear _
      | will | wont =>
        rw [if_neg fun own => Bool.noConfusion own.1]
        exact stands
    · rw [if_neg same, if_neg fun own => same own.2]
      exact stands

end Negotiator

/-! ### A stream -/

section

variable {policy : Policy}

/-- The options that are disclosed about. -/
def discloses (option : UInt8) : Prop := option = optTtype ∨ option = optNewEnviron

variable {option : UInt8}

theorem discloses_of_asksFor {first : Option UInt8} (asks : Reader.asksFor option first = true) :
    discloses option :=
  (of_decide_eq_true asks).imp And.left And.left

theorem discloses_of_notice {reader : Reader} {byte : UInt8}
    (told : reader.notice byte = some (.asks option)) : discloses option := by
  unfold Reader.notice at told
  split at told
  · cases told
  · split at told
    · rename_i asks
      cases told
      exact discloses_of_asksFor asks.2.2
    · cases told

theorem agreed_append (option : UInt8) (before after : List Notice) :
    agreed option (before ++ after) = after.foldl (agree option) (agreed option before) :=
  foldl_append

/-- Read on from a negotiator, the stream discloses only what is on exactly where the other side
asks only about what it has agreed to. -/
theorem disclosures_agreed_iff (supported : ∀ option, discloses option →
    policy.weSupport option = true) (before : List Notice) (bytes : List UInt8) (neg : Negotiator)
    (stands : ∀ option, discloses option →
      Negotiator.Stands (neg.us option) (agreed option before)) :
    (∀ one ∈ neg.disclosures policy bytes, one.held = .yes) ↔
      AsksAgreed before (neg.reader.notices bytes) := by
  induction bytes generalizing before neg with
  | nil => exact iff_of_true (forall_mem_nil _) (asksAgreed_nil before)
  | cons byte rest inductionHypothesis =>
    have later := inductionHypothesis (before ++ (neg.reader.notice byte).toList)
      (neg.receiveByte policy byte).1 fun option isOne => by
        rw [agreed_append]
        exact neg.stands_receiveByte policy (supported option isOne) (stands option isOne) byte
    rw [Negotiator.disclosures, forall_mem_append, later, Negotiator.reader_receiveByte,
      Reader.notices, Negotiator.replies_receiveByte]
    cases told : neg.reader.notice byte with
    | none =>
      rw [Option.toList_none, append_nil, nil_append]
      exact and_iff_right (forall_mem_nil _)
    | some notice =>
      rw [Option.toList_some, singleton_append, asksAgreed_cons]
      refine and_congr_left fun _ => ?_
      cases notice with
      | command said =>
        exact iff_of_true (forall_mem_nil _) nofun
      | asks option =>
        have held := (stands option (discloses_of_notice told)).iff
        constructor
        · rintro on _ same
          cases same
          exact held.mp (on _ mem_cons_self)
        · intro agreed one member
          cases mem_singleton.mp member
          exact held.mpr (agreed option rfl)

theorem asksAgreed_append (before first second : List Notice) :
    AsksAgreed before (first ++ second) ↔
      AsksAgreed before first ∧ AsksAgreed (before ++ first) second := by
  induction first generalizing before with
  | nil =>
    rw [nil_append, append_nil]
    exact (and_iff_right (asksAgreed_nil before)).symm
  | cons notice rest inductionHypothesis =>
    rw [cons_append, asksAgreed_cons, inductionHypothesis, asksAgreed_cons, and_assoc,
      append_assoc, singleton_append]

/-! ### Turns -/

/-- What a chunk leaves for the next: the reader has read on, and the options stand as was told. -/
theorem receiveBytes_stands (supported : ∀ option, discloses option →
    policy.weSupport option = true) (before : List Notice) (bytes : List UInt8) (neg : Negotiator)
    (stands : ∀ option, discloses option →
      Negotiator.Stands (neg.us option) (agreed option before)) :
    (neg.receiveBytes policy bytes).1.reader = neg.reader.read bytes ∧
      (neg.receiveBytes policy bytes).1.raw = neg.raw ∧
      ∀ option, discloses option →
        Negotiator.Stands ((neg.receiveBytes policy bytes).1.us option)
          (agreed option (before ++ neg.reader.notices bytes)) := by
  induction bytes generalizing before neg with
  | nil =>
    rw [Reader.notices, append_nil]
    exact ⟨rfl, rfl, stands⟩
  | cons byte rest inductionHypothesis =>
    obtain ⟨reader, raw, later⟩ := inductionHypothesis
      (before ++ (neg.reader.notice byte).toList) (neg.receiveByte policy byte).1
      fun option isOne => by
        rw [agreed_append]
        exact neg.stands_receiveByte policy (supported option isOne) (stands option isOne) byte
    rw [Negotiator.receiveBytes_cons]
    refine ⟨?_, ?_, fun option isOne => ?_⟩
    · rw [reader, Negotiator.reader_receiveByte]
      rfl
    · rw [raw, (neg.receiveByte_received policy byte).raw]
    · rw [Reader.notices, ← append_assoc, ← Negotiator.reader_receiveByte policy]
      exact later option isOne

theorem turns_agreed_iff (supported : ∀ option, discloses option →
    policy.weSupport option = true) (before : List Notice) (all : List Turn)
    (exchange : Exchange) (cooked : exchange.neg.raw = false)
    (stands : ∀ option, discloses option →
      Negotiator.Stands (exchange.neg.us option) (agreed option before)) :
    (exchange.turns policy all).DisclosesAgreed ↔
      exchange.DisclosesAgreed ∧
        AsksAgreed before (exchange.neg.reader.notices (all.flatMap Turn.bytes)) := by
  induction all generalizing before exchange with
  | nil => exact (and_iff_left (asksAgreed_nil before)).symm
  | cons turn rest inductionHypothesis =>
    cases turn with
    | resize cols rows =>
      exact inductionHypothesis before
        { exchange with neg := (exchange.neg.setWindow cols rows).1 } cooked stands
    | receive chunk =>
      obtain ⟨reader, raw, later⟩ :=
        receiveBytes_stands supported before chunk exchange.neg stands
      have received : exchange.turn policy (.receive chunk) =
          ⟨(exchange.neg.receiveBytes policy chunk).1,
            exchange.disclosed ++ exchange.neg.disclosures policy chunk⟩ := by
        simp only [Exchange.turn, Negotiator.receive, cooked]
        rfl
      have onward := inductionHypothesis (before ++ exchange.neg.reader.notices chunk)
        (exchange.turn policy (.receive chunk)) (by rw [received]; exact raw.trans cooked)
        (by rw [received]; exact later)
      have both : (exchange.turn policy (.receive chunk)).DisclosesAgreed ↔
          exchange.DisclosesAgreed ∧ AsksAgreed before (exchange.neg.reader.notices chunk) := by
        rw [received, ← disclosures_agreed_iff supported before chunk exchange.neg stands]
        exact forall_mem_append
      rw [flatMap_cons, Turn.bytes, Reader.notices_append, asksAgreed_append, ← reader,
        ← and_assoc, ← both]
      show ((exchange.turn policy (.receive chunk)).turns policy rest).DisclosesAgreed ↔ _
      rw [onward, received]

end

/-! ### From the start -/

/-- A negotiator that has heard nothing yet. -/
def Exchange.start (neg : Negotiator) : Exchange := ⟨neg, []⟩

theorem disclosed_raw (policy : Policy) (all : List Turn) (exchange : Exchange)
    (bare : exchange.neg.raw = true) :
    (exchange.turns policy all).disclosed = exchange.disclosed := by
  induction all generalizing exchange with
  | nil => rfl
  | cons turn rest inductionHypothesis =>
    cases turn with
    | resize cols rows =>
      exact inductionHypothesis { exchange with neg := (exchange.neg.setWindow cols rows).1 } bare
    | receive chunk =>
      have received : exchange.turn policy (.receive chunk) = exchange := by
        simp only [Exchange.turn, Negotiator.receive, bare, if_true, append_nil]
      show ((exchange.turn policy (.receive chunk)).turns policy rest).disclosed = _
      rw [received]
      exact inductionHypothesis exchange bare

/-- However the bytes are cut and the window resized, what is disclosed is on exactly where the
other side asks only about options it has agreed to; a bare socket discloses nothing. -/
theorem disclosesAgreed_iff (term : List UInt8) (username : Option (List UInt8))
    (all : List Turn) :
    (((Exchange.start (Negotiator.new clientPolicy term username).1).turns clientPolicy
      all).DisclosesAgreed ↔ AsksAgreed [] (Reader.start.notices (all.flatMap Turn.bytes))) ∧
    ((Exchange.start Negotiator.ofRaw).turns clientPolicy all).disclosed = [] := by
  refine ⟨?_, disclosed_raw clientPolicy all (Exchange.start Negotiator.ofRaw) rfl⟩
  have supported : ∀ option, discloses option → clientPolicy.weSupport option = true := by
    rintro option (rfl | rfl) <;> rfl
  have stands : ∀ option, discloses option →
      Negotiator.Stands ((Negotiator.new clientPolicy term username).1.us option)
        (agreed option []) := by
    rintro option (rfl | rfl)
    · exact .wantYes
    · exact .wantYes
  have read := turns_agreed_iff supported [] all
    (Exchange.start (Negotiator.new clientPolicy term username).1) rfl stands
  rw [read]
  exact and_iff_right (forall_mem_nil _)

/-- The other side declines to hear of the environment, and asks for it. -/
def declinedAndAsked : List UInt8 :=
  command .dont optNewEnviron ++ [iac, sb, optNewEnviron, envSend, iac, se]

/-- It is told the user's name. -/
theorem not_disclosesAgreed_declinedAndAsked :
    ¬ ((Exchange.start (Negotiator.new clientPolicy [120, 116, 101, 114, 109]
      (some [114, 111, 111, 116])).1).turns clientPolicy
        [.receive declinedAndAsked]).DisclosesAgreed := by
  intro agreed
  have off := agreed ⟨optNewEnviron, .no⟩ (by decide)
  cases off

end Oryxis.Telnet

/-
This file is two parties on a line: each writes to a byte stream that the other reads in
pieces. They may be negotiators, after their greetings, or other parties that keep to
the Q method. Every delivery of bytes is a run of the conversation of commands, so on
every line the commands are at most two for each request, and once both streams are read
the parties hold the same of every option, in each direction.
-/

import Oryxis.Telnet.Wire

namespace Oryxis.Telnet

open Library List

/-! ### Lines -/

/-- Both ends, the bytes on the way to each, and the topics of what was asked and said. -/
structure Line where
  ends : Side → Party
  inbox : Side → List UInt8
  asked : List Topic
  sent : List Topic

/-- The commands in bytes that begin between commands. -/
def carried (wire : List UInt8) : List Command :=
  (Position.scanAll (fun _ => false) ⟨.data, 0⟩ wire).2

variable {wire : List UInt8} {said : List Command}

theorem Carries.carried (carries : Carries wire said) :
    Telnet.carried wire = said := by
  obtain ⟨heldAfter, read⟩ := carries (fun _ => false) 0
  rw [Telnet.carried, read]

namespace Line

variable (line : Line)

/-- A party moves: what is left to it, and what it writes. -/
def act (side : Side) (party : Party) (rest wire : List UInt8) (asked : List Topic) : Line where
  ends := fun one => if one = side then party else line.ends one
  inbox := fun one => if one = side then rest else line.inbox one ++ wire
  asked := line.asked ++ asked
  sent := line.sent ++ (carried wire).map (Command.topic side)

end Line

inductive LineAction where
  | deliver (side : Side) (count : Nat) (accepts : Bool → UInt8 → Bool)
  | resize (side : Side) (cols rows : UInt16)
  | enter (side : Side) (data : List UInt8)
  | payload (side : Side) (data : List UInt8)
  | subnegotiate (side : Side) (option : UInt8) (body : List UInt8)
  | remark (side : Side) (byte : UInt8)
  | ask (side : Side) (performs : Bool) (option : UInt8) (on : Bool)

/-- A delivery takes the first bytes of a stream; what it accepts is asked of peers only. Either
party sends input and payload; a negotiator reports its window, and what else is said is a peer's. -/
def exchanging : Machine Line LineAction where
  step line action :=
    match action with
    | .deliver side count accepts =>
      let received := (line.ends side).receive accepts ((line.inbox side).take count)
      some (line.act side received.1 ((line.inbox side).drop count) received.2 [])
    | .resize side cols rows =>
      match line.ends side with
      | .negotiator policy neg =>
        let resized := neg.setWindow cols rows
        some (line.act side (.negotiator policy resized.1) (line.inbox side) (resized.2.getD []) [])
      | .peer _ => none
    | .enter side data =>
      some (line.act side (line.ends side) (line.inbox side) (encodeInput data) [])
    | .payload side data =>
      some (line.act side (line.ends side) (line.inbox side) (escapeIac data) [])
    | .subnegotiate side option body =>
      match line.ends side with
      | .negotiator _ _ => none
      | .peer _ => some (line.act side (line.ends side) (line.inbox side)
          (subnegotiation option body) [])
    | .remark side byte =>
      match line.ends side with
      | .negotiator _ _ => none
      | .peer _ =>
        if byte = iac ∨ byte = sb ∨ (Verb.ofByte byte).isSome then none
        else some (line.act side (line.ends side) (line.inbox side) [iac, byte] [])
    | .ask side performs option on =>
      match line.ends side with
      | .negotiator _ _ => none
      | .peer peer =>
        let moved := peer.options.ask performs option on
        some (line.act side (.peer { peer with options := moved.1 }) (line.inbox side)
          (moved.2.flatMap Command.bytes) [side.topic performs option])

/-- How an end comes to the line: a negotiator with its greeting, or a peer that has said nothing. -/
inductive Opening where
  | negotiator (policy : Policy) (term : List UInt8) (username : Option (List UInt8))
  | peer (full : Nat → Bool)

def Opening.party : Opening → Party
  | .negotiator policy term username => .negotiator policy (Negotiator.new policy term username).1
  | .peer full => .peer ⟨Options.blank, ⟨.data, 0⟩, full⟩

def Opening.greeting : Opening → List UInt8
  | .negotiator policy term username => (Negotiator.new policy term username).2
  | .peer _ => []

/-- A greeting is a request for each of its commands. -/
def Opening.requests (opening : Opening) (side : Side) : List Topic :=
  (carried opening.greeting).map (Command.topic side)

def Line.start (openings : Side → Opening) : Line where
  ends := fun side => (openings side).party
  inbox := fun side => (openings side.other).greeting
  asked := (openings .left).requests .left ++ (openings .right).requests .right
  sent := (openings .left).requests .left ++ (openings .right).requests .right

/-! ### The conversation on a line -/

namespace Line

variable (line : Line)

def talk : Conversation where
  options := fun side => (line.ends side).options
  coming := fun side => (line.ends side).heard (line.inbox side)
  asked := line.asked
  sent := line.sent

/-- Each stream ends between commands, and both ends negotiate. -/
def Whole : Prop :=
  ∀ side, ((line.ends side).position.scanAll (line.ends side).full (line.inbox side)).1.state = .data ∧
    (line.ends side).Negotiates

end Line

theorem Party.heard_append (party : Party) {bytes : List UInt8}
    (whole : (party.position.scanAll party.full bytes).1.state = .data)
    (carries : Carries wire said) :
    party.heard (bytes ++ wire) = party.heard bytes ++ said ∧
      (party.position.scanAll party.full (bytes ++ wire)).1.state = .data := by
  obtain ⟨heldAfter, read⟩ := carries party.full (party.position.scanAll party.full bytes).1.held
  have atData : (party.position.scanAll party.full bytes).1 =
      ⟨.data, (party.position.scanAll party.full bytes).1.held⟩ := by
    rw [← whole]
  rw [Party.heard, Party.heard, Position.scanAll_append, atData, read]
  exact ⟨rfl, rfl⟩

/-- A party that moves on the line moves in the conversation. -/
theorem Line.talk_act {line : Line} (whole : line.Whole) (side : Side) (party : Party)
    (rest : List UInt8) (carries : Carries wire said) (asked : List Topic) :
    (line.act side party rest wire asked).talk =
      line.talk.act side party.options (party.heard rest) said asked := by
  have options : (fun one => ((line.act side party rest wire asked).ends one).options) =
      fun one => if one = side then party.options else (line.ends one).options := by
    funext one
    rw [act, apply_ite Party.options]
  have coming : (fun one => ((line.act side party rest wire asked).ends one).heard
        ((line.act side party rest wire asked).inbox one)) =
      fun one => if one = side then party.heard rest
        else (line.ends one).heard (line.inbox one) ++ said := by
    funext one
    simp only [act]
    split
    · rfl
    · exact (Party.heard_append _ (whole one).1 carries).1
  rw [talk, options, coming, act, carries.carried]
  rfl

variable {rest : List UInt8}

theorem Line.whole_act {line : Line} (whole : line.Whole) (side : Side) {party : Party}
    (carries : Carries wire said) (asked : List Topic) (negotiates : party.Negotiates)
    (atRest : (party.position.scanAll party.full rest).1.state = .data) :
    (line.act side party rest wire asked).Whole := by
  intro one
  simp only [act]
  split
  · exact ⟨atRest, negotiates⟩
  · exact ⟨(Party.heard_append _ (whole one).1 carries).2, (whole one).2⟩

theorem Conversation.act_same (talk : Conversation) (side : Side) :
    talk.act side (talk.options side) (talk.coming side) [] [] = talk := by
  have options : (fun one => if one = side then talk.options side else talk.options one) =
      talk.options := by
    funext one
    split
    case isTrue same => rw [same]
    case isFalse => rfl
  have coming : (fun one => if one = side then talk.coming side else talk.coming one ++ []) =
      talk.coming := by
    funext one
    split
    case isTrue same => rw [same]
    case isFalse => exact append_nil _
  rw [act, options, coming, append_nil, map_nil, append_nil]

/-- Moving twice is moving once, with what was written both times. -/
theorem Line.act_act (line : Line) (side : Side) (first second : Party)
    (restFirst restSecond wireSecond : List UInt8) {wireFirst : List UInt8}
    (carriesFirst : Carries wireFirst said) {saidSecond : List Command}
    (carriesSecond : Carries wireSecond saidSecond) :
    (line.act side first restFirst wireFirst []).act side second restSecond wireSecond [] =
      line.act side second restSecond (wireFirst ++ wireSecond) [] := by
  have ends : (fun one => if one = side then second else
      if one = side then first else line.ends one) =
      fun one => if one = side then second else line.ends one := by
    funext one
    split <;> rfl
  have inbox : (fun one => if one = side then restSecond else
      (if one = side then restFirst else line.inbox one ++ wireFirst) ++ wireSecond) =
      fun one => if one = side then restSecond else line.inbox one ++ (wireFirst ++ wireSecond) := by
    funext one
    split
    · rfl
    · rw [append_assoc]
  simp only [act, ends, inbox, carriesFirst.carried, carriesSecond.carried,
    (carriesFirst.append carriesSecond).carried, append_nil, map_append,
    append_assoc]

/-- The bytes a party answers a delivery with carry commands, whatever they are. -/
theorem Party.carries_receive (free : Bool → UInt8 → Bool) {party : Party}
    (negotiates : party.Negotiates) (bytes : List UInt8) :
    ∃ said, Carries (party.receive free bytes).2 said := by
  induction bytes generalizing party with
  | nil =>
    rw [Party.receive_nil free negotiates]
    exact ⟨[], carries_nil⟩
  | cons byte rest inductionHypothesis =>
    obtain ⟨next, wire, received, later⟩ := Party.receive_cons free negotiates byte rest
    obtain ⟨said, carries⟩ := inductionHypothesis received.negotiates
    rw [later]
    exact ⟨_, received.carries.append carries⟩

/-- A byte that is taken is at most one command that is heard. -/
theorem Line.run_byte {line : Line} (whole : line.Whole) {side : Side} {byte : UInt8}
    (next : line.inbox side = byte :: rest) {free : Bool → UInt8 → Bool} {party : Party}
    (received : (line.ends side).Receives free byte party wire) :
    (∃ actions, conversing.run line.talk actions = some (line.act side party rest wire []).talk) ∧
      (line.act side party rest wire []).Whole := by
  have heardAll : (line.ends side).heard (line.inbox side) =
      ((line.ends side).position.scan (line.ends side).full byte).2.toList ++ party.heard rest := by
    rw [next, Party.heard, Party.heard, received.position, received.full]
    rfl
  have atRest : (party.position.scanAll party.full rest).1.state = .data := by
    have atEnd := (whole side).1
    rw [next] at atEnd
    rw [received.position, received.full]
    exact atEnd
  refine ⟨?_, whole_act whole side received.carries [] received.negotiates atRest⟩
  rw [talk_act whole side party rest received.carries, received.options]
  cases scanned : ((line.ends side).position.scan (line.ends side).full byte).2 with
  | none =>
    rw [scanned] at heardAll
    have same := line.talk.act_same side
    rw [show line.talk.coming side = party.heard rest from heardAll] at same
    exact ⟨[], congrArg some same.symm⟩
  | some heard =>
    rw [scanned] at heardAll
    refine ⟨[.hear side ((line.ends side).accepts free)], Machine.run_cons_eq_some.mpr
      ⟨_, ?_, rfl⟩⟩
    have coming : line.talk.coming side = heard :: party.heard rest := heardAll
    simp only [conversing, coming]
    rfl

/-- A delivery is a run of the conversation. -/
theorem Line.run_deliver {line : Line} (whole : line.Whole) (side : Side)
    (free : Bool → UInt8 → Bool) (bytes rest : List UInt8)
    (next : line.inbox side = bytes ++ rest) :
    (∃ actions, conversing.run line.talk actions =
        some (line.act side ((line.ends side).receive free bytes).1 rest
          ((line.ends side).receive free bytes).2 []).talk) ∧
      (line.act side ((line.ends side).receive free bytes).1 rest
        ((line.ends side).receive free bytes).2 []).Whole := by
  induction bytes generalizing line with
  | nil =>
    rw [Party.receive_nil free (whole side).2]
    have heardAll : line.talk.coming side = (line.ends side).heard rest :=
      congrArg (line.ends side).heard next
    have atRest := (whole side).1
    rw [next] at atRest
    refine ⟨⟨[], ?_⟩, whole_act whole side carries_nil [] (whole side).2 atRest⟩
    have same := line.talk.act_same side
    rw [talk_act whole side _ rest carries_nil, ← heardAll]
    exact congrArg some same.symm
  | cons byte bytes inductionHypothesis =>
    obtain ⟨party, wire, received, later⟩ :=
      Party.receive_cons free (whole side).2 byte bytes
    obtain ⟨⟨actions, ran⟩, wholeAfter⟩ :=
      run_byte whole (show line.inbox side = byte :: (bytes ++ rest) from next) received
    have moved : (line.act side party (bytes ++ rest) wire []).ends side = party := if_pos rfl
    obtain ⟨⟨actionsAfter, ranAfter⟩, wholeFinal⟩ :=
      @inductionHypothesis (line.act side party (bytes ++ rest) wire []) wholeAfter (if_pos rfl)
    obtain ⟨said, carries⟩ := Party.carries_receive free received.negotiates bytes
    rw [moved, act_act line side party _ _ _ _ received.carries carries] at ranAfter wholeFinal
    rw [later]
    exact ⟨⟨actions ++ actionsAfter, Machine.run_append ran ranAfter⟩, wholeFinal⟩

/-- Bytes that carry no command change nothing in the conversation. -/
theorem Line.run_silent {line : Line} (whole : line.Whole) (side : Side) {party : Party}
    (carries : Carries wire []) (options : party.options = (line.ends side).options)
    (position : party.position = (line.ends side).position)
    (full : party.full = (line.ends side).full) (negotiates : party.Negotiates) :
    (∃ actions, conversing.run line.talk actions =
        some (line.act side party (line.inbox side) wire []).talk) ∧
      (line.act side party (line.inbox side) wire []).Whole := by
  have atRest := (whole side).1
  rw [← position, ← full] at atRest
  refine ⟨⟨[], ?_⟩, whole_act whole side carries [] negotiates atRest⟩
  have heardSame : party.heard (line.inbox side) = line.talk.coming side := by
    rw [Party.heard, position, full]
    rfl
  rw [talk_act whole side party _ carries, options, heardSame]
  exact congrArg some (line.talk.act_same side).symm

theorem Line.run_ask {line : Line} (whole : line.Whole) (side : Side) {peer : Peer}
    (isPeer : line.ends side = .peer peer) (performs : Bool) (option : UInt8) (on : Bool) :
    (∃ actions, conversing.run line.talk actions =
        some (line.act side (.peer { peer with options := (peer.options.ask performs option on).1 })
          (line.inbox side) ((peer.options.ask performs option on).2.flatMap Command.bytes)
          [side.topic performs option]).talk) ∧
      (line.act side (.peer { peer with options := (peer.options.ask performs option on).1 })
          (line.inbox side) ((peer.options.ask performs option on).2.flatMap Command.bytes)
          [side.topic performs option]).Whole := by
  have carries : Carries ((peer.options.ask performs option on).2.flatMap Command.bytes)
      (peer.options.ask performs option on).2 := carries_spoken _ _ _
  have atRest := (whole side).1
  rw [isPeer] at atRest
  refine ⟨⟨[.ask side performs option on], Machine.run_cons_eq_some.mpr ⟨_, ?_, rfl⟩⟩,
    whole_act whole side carries _ trivial atRest⟩
  have held : line.talk.options side = peer.options := congrArg Party.options isPeer
  have coming : line.talk.coming side =
      Party.heard (.peer { peer with options := (peer.options.ask performs option on).1 })
        (line.inbox side) := by
    show (line.ends side).heard (line.inbox side) = _
    rw [isPeer]
    rfl
  rw [talk_act whole side _ _ carries]
  simp only [conversing, held, coming]
  rfl

variable {next : Line} {action : LineAction}

theorem exchanging_run {line : Line} (whole : line.Whole)
    (stepped : exchanging.step line action = some next) :
    (∃ actions, conversing.run line.talk actions = some next.talk) ∧ next.Whole := by
  cases action with
  | deliver side count accepts =>
    cases stepped
    exact Line.run_deliver whole side accepts _ _ (take_append_drop _ _).symm
  | resize side cols rows =>
    cases isParty : line.ends side with
    | negotiator policy neg =>
      simp only [exchanging, isParty, Option.some.injEq] at stepped
      have carries : Carries ((neg.setWindow cols rows).2.getD []) [] := by
        rw [Negotiator.setWindow]
        split
        · exact carries_subnegotiation _ _
        · exact carries_nil
      have negotiates := (whole side).2
      rw [isParty] at negotiates
      rw [← stepped]
      exact Line.run_silent whole side carries (by rw [isParty]; rfl) (by rw [isParty]; rfl)
        (by rw [isParty]; rfl) negotiates
    | peer peer => simp only [exchanging, isParty, reduceCtorEq] at stepped
  | enter side data =>
    cases stepped
    exact Line.run_silent whole side (carries_encodeInput data) rfl rfl rfl (whole side).2
  | payload side data =>
    cases stepped
    exact Line.run_silent whole side (carries_escapeIac data) rfl rfl rfl (whole side).2
  | subnegotiate side option body =>
    cases isParty : line.ends side with
    | negotiator policy neg => simp only [exchanging, isParty, reduceCtorEq] at stepped
    | peer peer =>
      simp only [exchanging, isParty, Option.some.injEq] at stepped
      rw [← stepped, ← isParty]
      exact Line.run_silent whole side (carries_subnegotiation option body) rfl rfl rfl
        (whole side).2
  | remark side byte =>
    cases isParty : line.ends side with
    | negotiator policy neg => simp only [exchanging, isParty, reduceCtorEq] at stepped
    | peer peer =>
      simp only [exchanging, isParty] at stepped
      split at stepped
      case isTrue => cases stepped
      case isFalse plain =>
        have carries : Carries [iac, byte] [] := by
          intro full held
          have noVerb : Verb.ofByte byte = none := by
            cases verb : Verb.ofByte byte with
            | none => rfl
            | some _ => exact absurd (.inr (.inr (by rw [verb]; rfl))) plain
          refine ⟨held, ?_⟩
          simp [Position.scanAll, Position.scan, noVerb, mt .inl plain,
            mt (fun opens => .inr (.inl opens)) plain]
        cases stepped
        rw [← isParty]
        exact Line.run_silent whole side carries rfl rfl rfl (whole side).2
  | ask side performs option on =>
    cases isParty : line.ends side with
    | negotiator policy neg => simp only [exchanging, isParty, reduceCtorEq] at stepped
    | peer peer =>
      simp only [exchanging, isParty, Option.some.injEq] at stepped
      rw [← stepped]
      exact Line.run_ask whole side isParty performs option on

/-! ### The opening -/

/-- The commands of a greeting. -/
def Opening.commands : Opening → List Command
  | .negotiator policy _ _ =>
    policy.offers.map (Command.mk .will) ++ policy.requests.map (Command.mk .do)
  | .peer _ => []

/-- Whether an opening asks for an option, of itself or of the other. -/
def Opening.asksFor : Opening → Bool → UInt8 → Bool
  | .negotiator policy _ _, true, option => option ∈ policy.offers
  | .negotiator policy _ _, false, option => option ∈ policy.requests
  | .peer _, _, _ => false

theorem carries_commands (verb : Verb) (options : List UInt8) :
    Carries (options.flatMap (command verb)) (options.map (Command.mk verb)) := by
  induction options with
  | nil => exact carries_nil
  | cons option rest inductionHypothesis =>
    exact (carries_command verb option).append inductionHypothesis

theorem Opening.carries_greeting (opening : Opening) :
    Carries opening.greeting opening.commands := by
  cases opening with
  | negotiator policy term username =>
    exact (carries_commands .will policy.offers).append (carries_commands .do policy.requests)
  | peer full => exact carries_nil

theorem Opening.options_eq (opening : Opening) (performs : Bool) (option : UInt8) :
    opening.party.options performs option =
      if opening.asksFor performs option then .wantYes else .no := by
  cases opening with
  | negotiator policy term username =>
    cases performs with
    | true =>
      show (if option ∈ policy.offers then QState.wantYes else .no) = _
      simp [asksFor]
    | false =>
      show (if option ∈ policy.requests then QState.wantYes else .no) = _
      simp [asksFor]
  | peer full => rfl

theorem messages_map {options : List UInt8} (distinct : options.Nodup) (speaker : Side)
    (topic : Topic) (verb : Verb) :
    messages speaker topic (options.map (Command.mk verb)) =
      if topic.2 ∈ options ∧ decide (topic.1 = speaker) = verb.performs then [verb.on] else [] := by
  induction options with
  | nil => simp [messages]
  | cons option rest inductionHypothesis =>
    obtain ⟨fresh, distinctRest⟩ := nodup_cons.mp distinct
    have about : Command.topic speaker ⟨verb, option⟩ = topic ↔
        decide (topic.1 = speaker) = verb.performs ∧ topic.2 = option :=
      eq_comm.trans (Side.eq_topic_iff ..)
    rw [map_cons]
    by_cases spokenOf : Command.topic speaker ⟨verb, option⟩ = topic
    · obtain ⟨performs, same⟩ := about.mp spokenOf
      rw [messages_cons_of_eq spokenOf, inductionHypothesis distinctRest,
        if_neg (fun listed => fresh (same ▸ listed.1)),
        if_pos ⟨same ▸ mem_cons_self, performs⟩]
    · rw [messages_cons_of_ne spokenOf, inductionHypothesis distinctRest]
      refine if_congr ⟨fun listed => ⟨mem_cons_of_mem _ listed.1, listed.2⟩, fun listed => ?_⟩
        rfl rfl
      rcases mem_cons.mp listed.1 with same | later
      · exact absurd (about.mpr ⟨listed.2, same⟩) spokenOf
      · exact ⟨later, listed.2⟩

theorem Opening.messages_commands (opening : Opening) (speaker : Side) (topic : Topic) :
    messages speaker topic opening.commands =
      if opening.asksFor (decide (topic.1 = speaker)) topic.2 then [true] else [] := by
  cases opening with
  | negotiator policy term username =>
    rw [commands, messages_append, messages_map policy.offers_nodup,
      messages_map policy.requests_nodup]
    cases decide (topic.1 = speaker) <;> simp [asksFor, Verb.performs, Verb.on]
  | peer full => rfl

theorem count_topics (speaker : Side) (topic : Topic) (commands : List Command) :
    (commands.map (Command.topic speaker)).count topic =
      (messages speaker topic commands).length := by
  induction commands with
  | nil => rfl
  | cons said rest inductionHypothesis =>
    by_cases about : said.topic speaker = topic
    · rw [messages_cons_of_eq about, map_cons, about, count_cons_self,
        inductionHypothesis, length_cons]
    · rw [messages_cons_of_ne about, map_cons, count_cons_of_ne about,
        inductionHypothesis]

theorem Line.whole_start (openings : Side → Opening) : (Line.start openings).Whole := by
  intro side
  constructor
  · obtain ⟨heldAfter, read⟩ := (openings side.other).carries_greeting (openings side).party.full 0
    have blank : (openings side).party.position = ⟨.data, 0⟩ := by
      cases openings side <;> rfl
    show ((openings side).party.position.scanAll (openings side).party.full
      (openings side.other).greeting).1.state = .data
    rw [blank, read]
  · show (openings side).party.Negotiates
    cases openings side with
    | negotiator policy term username => exact rfl
    | peer full => trivial

theorem Opening.heard_greeting (opening other : Opening) :
    opening.party.heard other.greeting = other.commands := by
  obtain ⟨heldAfter, read⟩ := other.carries_greeting opening.party.full 0
  have blank : opening.party.position = ⟨.data, 0⟩ := by
    cases opening <;> rfl
  rw [Party.heard, blank, read]

theorem Line.sound_start (openings : Side → Opening) : (Line.start openings).talk.Sound := by
  intro topic
  have requests : ∀ side, ((openings side).requests side).count topic =
      (messages side topic (openings side).commands).length := fun side => by
    rw [Opening.requests, (openings side).carries_greeting.carried, count_topics]
  have link : (Line.start openings).talk.link .left topic =
      ⟨(openings .left).party.options (decide (topic.1 = .left)) topic.2,
        (openings .right).party.options (decide (topic.1 = .right)) topic.2,
        messages .right topic (openings .right).commands,
        messages .left topic (openings .left).commands⟩ := by
    rw [← Opening.heard_greeting (openings .left), ← Opening.heard_greeting (openings .right)]
    rfl
  show ∃ owed, _ ∧ List.count topic (_ ++ _) + owed ≤ 2 * List.count topic (_ ++ _)
  rw [link, count_append, requests, requests]
  simp only [Opening.options_eq, Opening.messages_commands]
  cases (openings .left).asksFor (decide (topic.1 = .left)) topic.2 <;>
    cases (openings .right).asksFor (decide (topic.1 = .right)) topic.2
  · exact ⟨0, rfl, by simp⟩
  · exact ⟨1, rfl, by simp⟩
  · exact ⟨1, rfl, by simp⟩
  · exact ⟨0, rfl, by simp⟩

/-! ### Every line settles -/

def LineAction.isAsk : LineAction → Bool
  | .ask .. => true
  | .deliver .. | .resize .. | .enter .. | .payload .. | .subnegotiate .. | .remark .. => false

theorem asked_of_step {line : Line} (stepped : exchanging.step line action = some next) :
    next.asked.length = line.asked.length + if action.isAsk then 1 else 0 := by
  have none_asked (side : Side) (party : Party) (rest wire : List UInt8) :
      (line.act side party rest wire []).asked.length = line.asked.length := by
    rw [Line.act, append_nil]
  cases action with
  | deliver side count accepts => cases stepped; exact none_asked ..
  | enter side data => cases stepped; exact none_asked ..
  | payload side data => cases stepped; exact none_asked ..
  | resize side cols rows =>
    simp only [exchanging] at stepped
    split at stepped <;> cases stepped
    exact none_asked ..
  | subnegotiate side option body =>
    simp only [exchanging] at stepped
    split at stepped <;> cases stepped
    exact none_asked ..
  | remark side byte =>
    simp only [exchanging] at stepped
    split at stepped
    · cases stepped
    · split at stepped <;> cases stepped
      exact none_asked ..
  | ask side performs option on =>
    simp only [exchanging] at stepped
    split at stepped <;> cases stepped
    exact length_append

variable {final : Line} {actions : List LineAction}

theorem asked_of_run {line : Line} (ran : exchanging.run line actions = some final) :
    final.asked.length = line.asked.length + actions.countP LineAction.isAsk := by
  induction actions generalizing line with
  | nil =>
    cases ran
    rfl
  | cons action actions inductionHypothesis =>
    obtain ⟨next, stepped, rest⟩ := Machine.run_cons_eq_some.mp ran
    rw [inductionHypothesis rest, asked_of_step stepped, countP_cons]
    omega

theorem exchanging_run_sound {line : Line} (whole : line.Whole) (sound : line.talk.Sound)
    (ran : exchanging.run line actions = some final) :
    final.talk.Sound := by
  have kept : ∀ (line : Line) (action : LineAction) (next : Line),
      line.Whole ∧ line.talk.Sound → True → exchanging.step line action = some next →
        next.Whole ∧ next.talk.Sound := by
    intro line action next holds _ stepped
    obtain ⟨⟨talked, ranTalk⟩, wholeNext⟩ := exchanging_run holds.1 stepped
    exact ⟨wholeNext, conversing_run_sound holds.2 ranTalk⟩
  exact (Machine.invariant kept ⟨whole, sound⟩ (Machine.along_true _ _ _) ran).2

/-- However deliveries, requests and other bytes fall, the commands are at most two for each command
of a greeting and each request; and when both streams are read, what either end performs is what
the other has it perform, with nothing under way. -/
theorem negotiation_settles {openings : Side → Opening} {actions : List LineAction} {final : Line}
    (ran : exchanging.run (Line.start openings) actions = some final) :
    final.sent.length ≤ 2 * ((openings .left).commands.length +
        (openings .right).commands.length + actions.countP LineAction.isAsk) ∧
      ((∀ side, final.inbox side = []) → ∀ side option,
        (final.ends side).options true option = (final.ends side.other).options false option ∧
          ((final.ends side).options true option).awaits = false) := by
  have sound := exchanging_run_sound (Line.whole_start openings) (Line.sound_start openings) ran
  constructor
  · have covered : final.sent.length ≤ 2 * final.asked.length := sound.sent_le
    have asked := asked_of_run ran
    have greeted : (Line.start openings).asked.length =
        (openings .left).commands.length + (openings .right).commands.length := by
      simp only [Line.start, Opening.requests, (Opening.carries_greeting _).carried,
        length_append, length_map]
    omega
  · intro readAll side option
    have heardAll : ∀ one, final.talk.coming one = [] := fun one => by
      show (final.ends one).heard (final.inbox one) = []
      rw [readAll one]
      rfl
    have settled := sound.settled heardAll (side, option)
    cases side with
    | left => exact settled
    | right =>
      have rests : (final.talk.held .right (.right, option)).awaits = false := by
        rw [← settled.1]
        exact settled.2
      exact ⟨settled.1.symm, rests⟩

/-- A client before a server that says it will echo while it is asked to, in pieces. -/
def crossingOpenings : Side → Opening
  | .left => .negotiator clientPolicy [120, 116, 101, 114, 109] none
  | .right => .peer fun _ => false

def crossing : List LineAction :=
  [.ask .right true optEcho true, .resize .left 100 30, .deliver .right 4 fun _ _ => true,
    .ask .right false optNaws true, .deliver .left 2 fun _ _ => false,
    .subnegotiate .right optTtype [ttypeSend], .deliver .right 50 fun _ _ => true,
    .ask .right true optEcho false, .deliver .left 50 fun _ _ => false,
    .deliver .right 50 fun _ _ => true, .deliver .left 50 fun _ _ => false,
    .deliver .right 50 fun _ _ => true]

theorem negotiation_settles_crossing :
    ∃ final, exchanging.run (Line.start crossingOpenings) crossing = some final ∧
      final.sent.length ≤ 2 * (6 + 0 + 3) ∧
      ∀ side option,
        (final.ends side).options true option = (final.ends side.other).options false option ∧
          ((final.ends side).options true option).awaits = false := by
  have runs : (exchanging.run (Line.start crossingOpenings) crossing).any (fun final =>
      (final.inbox .left).isEmpty && (final.inbox .right).isEmpty) = true := by
    decide +kernel
  obtain ⟨final, ran, readAll⟩ := (Option.any_eq_true _ _).mp runs
  have readBoth := Bool.and_eq_true_iff.mp readAll
  have settled := negotiation_settles ran
  refine ⟨final, ran, settled.1, settled.2 fun side => ?_⟩
  cases side with
  | left => exact List.isEmpty_iff.mp readBoth.1
  | right => exact List.isEmpty_iff.mp readBoth.2

end Oryxis.Telnet

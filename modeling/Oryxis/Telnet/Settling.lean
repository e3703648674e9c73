/-
This file is what two parties to Telnet negotiation say to each other, command by
command. Each option is negotiated apart from the others, and once for each party that
may perform it: what the commands about one such topic do is a link of the Q method.
Hearing a command and asking for an option move the link of their topic, as the method
has it, and leave every other link as it was; what the links owe therefore bounds the
commands of a whole conversation, and where nothing is left to hear both parties hold the
same of every topic.
-/

import Mathlib.Data.List.Perm.Subperm
import Oryxis.Library.Machine
import Oryxis.Telnet.Negotiation

namespace Oryxis.Telnet

open Library List

/-! ### Commands and options -/

structure Command where
  verb : Verb
  option : UInt8

def Command.bytes (said : Command) : List UInt8 := command said.verb said.option

/-- What a party says of an option, as commands. -/
def spoken (performs : Bool) (option : UInt8) (on : Option Bool) : List Command :=
  on.toList.map fun on => ⟨Verb.of performs on, option⟩

/-- What a party holds of each option: as the one who performs it, and as the other. -/
def Options := Bool → UInt8 → QState

namespace Options

def blank : Options := fun _ _ => .no

def set (options : Options) (performs : Bool) (option : UInt8) (state : QState) : Options :=
  fun otherPerforms other =>
    if otherPerforms = performs ∧ other = option then state else options otherPerforms other

/-- What the hearer of a command holds after it, and its answer. -/
def hear (options : Options) (accepts : Bool → UInt8 → Bool) (heard : Command) :
    Options × List Command :=
  let performs := !heard.verb.performs
  let moved := (options performs heard.option).hear (accepts performs heard.option) heard.verb.on
  (options.set performs heard.option moved.1, spoken performs heard.option moved.2)

/-- A request of the party's own, to perform an option or not, or that the other does or not. -/
def ask (options : Options) (performs : Bool) (option : UInt8) (on : Bool) :
    Options × List Command :=
  let moved := (options performs option).ask on
  (options.set performs option moved.1, spoken performs option moved.2)

end Options

@[simp] theorem Verb.performs_of (performs on : Bool) : (Verb.of performs on).performs = performs := by
  cases performs <;> cases on <;> rfl

@[simp] theorem Verb.on_of (performs on : Bool) : (Verb.of performs on).on = on := by
  cases performs <;> cases on <;> rfl

/-! ### Conversations -/

inductive Side where
  | left
  | right
  deriving DecidableEq, Repr

def Side.other : Side → Side
  | .left => .right
  | .right => .left

variable (side : Side)

@[simp] theorem Side.other_other : side.other.other = side := by
  cases side <;> rfl

@[simp] theorem Side.other_ne : side.other ≠ side := by
  cases side <;> decide

@[simp] theorem Side.ne_other : side ≠ side.other := by
  cases side <;> decide

theorem Side.eq_or_eq_other (side one : Side) : one = side ∨ one = side.other := by
  cases side <;> cases one <;> simp [Side.other]

/-- Who is to perform the option, and the option. -/
abbrev Topic := Side × UInt8

/-- What a party is about that performs an option, or has the other perform it. -/
def Side.topic (side : Side) (performs : Bool) (option : UInt8) : Topic :=
  (if performs then side else side.other, option)

/-- What a command is about, from the one who says it. -/
def Command.topic (speaker : Side) (said : Command) : Topic :=
  speaker.topic said.verb.performs said.option

/-- The parties, the commands on the way to each, and the topics of what was asked and said. -/
structure Conversation where
  options : Side → Options
  coming : Side → List Command
  asked : List Topic
  sent : List Topic

namespace Conversation

variable (talk : Conversation)

/-- A party moves: what it holds, what it has yet to hear, and what it says. -/
def act (side : Side) (options : Options) (rest said : List Command) (asked : List Topic) :
    Conversation where
  options := fun one => if one = side then options else talk.options one
  coming := fun one => if one = side then rest else talk.coming one ++ said
  asked := talk.asked ++ asked
  sent := talk.sent ++ said.map (Command.topic side)

end Conversation

inductive TalkAction where
  | hear (side : Side) (accepts : Bool → UInt8 → Bool)
  | ask (side : Side) (performs : Bool) (option : UInt8) (on : Bool)

/-- Either party hears the next command or asks for something. -/
def conversing : Machine Conversation TalkAction where
  step talk action :=
    match action with
    | .hear side accepts =>
      match talk.coming side with
      | [] => none
      | heard :: rest =>
        let moved := (talk.options side).hear accepts heard
        some (talk.act side moved.1 rest moved.2 [])
    | .ask side performs option on =>
      let moved := (talk.options side).ask performs option on
      some (talk.act side moved.1 (talk.coming side) moved.2 [side.topic performs option])

/-! ### The link of a topic -/

/-- What the commands of a speaker say about a topic. -/
def messages (speaker : Side) (topic : Topic) (commands : List Command) : List Bool :=
  commands.filterMap fun said => if said.topic speaker = topic then some said.verb.on else none

namespace Conversation

variable (talk : Conversation)

def held (side : Side) (topic : Topic) : QState :=
  talk.options side (decide (topic.1 = side)) topic.2

def link (side : Side) (topic : Topic) : Link :=
  ⟨talk.held side topic, talk.held side.other topic,
    messages side.other topic (talk.coming side), messages side topic (talk.coming side.other)⟩

theorem link_other (side : Side) (topic : Topic) :
    talk.link side.other topic = (talk.link side topic).swap := by
  simp [link, Link.swap]

end Conversation

variable (speaker : Side)

theorem messages_append (topic : Topic) (first second : List Command) :
    messages speaker topic (first ++ second) =
      messages speaker topic first ++ messages speaker topic second :=
  filterMap_append ..

theorem messages_cons_of_eq {speaker : Side} {topic : Topic} {said : Command}
    (about : said.topic speaker = topic) (rest : List Command) :
    messages speaker topic (said :: rest) = said.verb.on :: messages speaker topic rest := by
  simp [messages, about]

theorem messages_cons_of_ne {speaker : Side} {topic : Topic} {said : Command}
    (about : said.topic speaker ≠ topic) (rest : List Command) :
    messages speaker topic (said :: rest) = messages speaker topic rest := by
  simp [messages, about]

theorem messages_spoken (performs : Bool) (option : UInt8) (on : Option Bool) (topic : Topic) :
    messages speaker topic (spoken performs option on) =
      if topic = speaker.topic performs option then on.toList else [] := by
  cases on with
  | none => simp [messages, spoken]
  | some on =>
    by_cases about : speaker.topic performs option = topic
    · simp [messages, spoken, Command.topic, about]
    · simp [messages, spoken, Command.topic, about, Ne.symm about]

theorem count_spoken (performs : Bool) (option : UInt8) (on : Option Bool) (topic : Topic) :
    ((spoken performs option on).map (Command.topic speaker)).count topic =
      if topic = speaker.topic performs option then on.toList.length else 0 := by
  cases on with
  | none => simp [spoken]
  | some on =>
    by_cases about : speaker.topic performs option = topic
    · simp [spoken, Command.topic, about]
    · simp [spoken, Command.topic, about, Ne.symm about]

theorem Side.eq_topic_iff (performs : Bool) (option : UInt8) (topic : Topic) :
    topic = side.topic performs option ↔ decide (topic.1 = side) = performs ∧ topic.2 = option := by
  obtain ⟨performer, about⟩ := topic
  cases performs
  · rcases Side.eq_or_eq_other side performer with rfl | rfl <;> simp [Side.topic]
  · rcases Side.eq_or_eq_other side performer with rfl | rfl <;> simp [Side.topic]

/-- What a party says of one option moves the link of its topic, and no other. -/
theorem Conversation.link_act (talk : Conversation) (side : Side) (performs : Bool)
    (option : UInt8) (state : QState) (on : Option Bool) (rest : List Command)
    (asked : List Topic) (topic : Topic) :
    (talk.act side ((talk.options side).set performs option state) rest
      (spoken performs option on) asked).link side topic =
      { talk.link side topic with
        own := if topic = side.topic performs option then state else talk.held side topic
        incoming := messages side.other topic rest
        outgoing := messages side topic (talk.coming side.other) ++
          if topic = side.topic performs option then on.toList else [] } := by
  simp only [link, held, act, Options.set, ← Side.eq_topic_iff, if_pos, if_neg (Side.other_ne side),
    messages_append, messages_spoken]

/-- What was said of each topic, and what is owed on its link, is covered by what was asked. -/
def Conversation.Sound (talk : Conversation) : Prop :=
  ∀ topic, ∃ owed, (talk.link .left topic).dues = some owed ∧
    talk.sent.count topic + owed ≤ 2 * talk.asked.count topic

theorem Conversation.sound_iff (talk : Conversation) (side : Side) :
    talk.Sound ↔ ∀ topic, ∃ owed, (talk.link side topic).dues = some owed ∧
      talk.sent.count topic + owed ≤ 2 * talk.asked.count topic := by
  cases side with
  | left => exact Iff.rfl
  | right =>
    refine forall_congr' fun topic => ?_
    rw [show talk.link .right topic = (talk.link .left topic).swap from talk.link_other .left topic,
      Link.dues_swap]

/-! ### Runs -/

theorem Side.topic_other (performs : Bool) (option : UInt8) :
    side.other.topic performs option = side.topic (!performs) option := by
  cases performs <;> simp [Side.topic]

theorem Conversation.sound_hear {talk : Conversation} (sound : talk.Sound) {side : Side}
    {heard : Command} {rest : List Command} (next : talk.coming side = heard :: rest)
    (accepts : Bool → UInt8 → Bool) :
    (talk.act side ((talk.options side).hear accepts heard).1 rest
      ((talk.options side).hear accepts heard).2 []).Sound := by
  rw [sound_iff _ side]
  intro topic
  obtain ⟨owed, due, covered⟩ := (sound_iff talk side).mp sound topic
  have spokenCount := count_spoken side (!heard.verb.performs) heard.option
    ((talk.options side (!heard.verb.performs) heard.option).hear
      (accepts (!heard.verb.performs) heard.option) heard.verb.on).2 topic
  have spokenOf : heard.topic side.other = side.topic (!heard.verb.performs) heard.option :=
    Side.topic_other ..
  simp only [Options.hear, link_act]
  show ∃ owed, _ ∧ List.count topic (talk.sent ++ _) + owed ≤ 2 * List.count topic (talk.asked ++ [])
  rw [count_append, append_nil, spokenCount]
  by_cases about : topic = side.topic (!heard.verb.performs) heard.option
  · have here : talk.held side topic = talk.options side (!heard.verb.performs) heard.option := by
      obtain ⟨performs, option⟩ := (Side.eq_topic_iff ..).mp about
      rw [held, performs, option]
    have first : (talk.link side topic).incoming =
        heard.verb.on :: messages side.other topic rest := by
      show messages side.other topic (talk.coming side) = _
      rw [next, messages_cons_of_eq (spokenOf.trans about.symm)]
    obtain ⟨left, leftDue, paid⟩ := Link.dues_hear due first
      (accepts (!heard.verb.performs) heard.option)
    rw [if_pos about, if_pos about, if_pos about, ← here]
    refine ⟨left, leftDue, ?_⟩
    rw [show (talk.link side topic).own = talk.held side topic from rfl] at paid
    omega
  · have same : (talk.link side topic).incoming = messages side.other topic rest := by
      show messages side.other topic (talk.coming side) = _
      rw [next, messages_cons_of_ne (fun equal => about (equal.symm.trans spokenOf))]
    rw [if_neg about, if_neg about, if_neg about, ← same, append_nil]
    exact ⟨owed, due, covered⟩

theorem Conversation.sound_ask {talk : Conversation} (sound : talk.Sound) (side : Side)
    (performs : Bool) (option : UInt8) (on : Bool) :
    (talk.act side ((talk.options side).ask performs option on).1 (talk.coming side)
      ((talk.options side).ask performs option on).2 [side.topic performs option]).Sound := by
  rw [sound_iff _ side]
  intro topic
  obtain ⟨owed, due, covered⟩ := (sound_iff talk side).mp sound topic
  have spokenCount := count_spoken side performs option
    ((talk.options side performs option).ask on).2 topic
  simp only [Options.ask, link_act]
  show ∃ owed, _ ∧ List.count topic (talk.sent ++ _) + owed ≤ 2 * List.count topic (talk.asked ++ _)
  rw [count_append, count_append, spokenCount]
  by_cases about : topic = side.topic performs option
  · have here : talk.held side topic = talk.options side performs option := by
      obtain ⟨performs, option⟩ := (Side.eq_topic_iff ..).mp about
      rw [held, performs, option]
    have askedOnce : List.count topic [side.topic performs option] = 1 := by
      rw [← about, count_singleton_self]
    obtain ⟨left, leftDue, paid⟩ := Link.dues_ask due on
    rw [if_pos about, if_pos about, if_pos about, ← here, askedOnce]
    refine ⟨left, leftDue, ?_⟩
    rw [show (talk.link side topic).own = talk.held side topic from rfl] at paid
    omega
  · have askedNever : List.count topic [side.topic performs option] = 0 :=
      count_eq_zero.mpr fun listed => about (mem_singleton.mp listed)
    rw [if_neg about, if_neg about, if_neg about, askedNever, append_nil]
    exact ⟨owed, due, covered⟩

theorem conversing_sound {talk next : Conversation} {action : TalkAction} (sound : talk.Sound)
    (stepped : conversing.step talk action = some next) : next.Sound := by
  cases action with
  | hear side accepts =>
    cases coming : talk.coming side with
    | nil =>
      simp only [conversing, coming, reduceCtorEq] at stepped
    | cons heard rest =>
      simp only [conversing, coming, Option.some.injEq] at stepped
      rw [← stepped]
      exact Conversation.sound_hear sound coming accepts
  | ask side performs option on =>
    simp only [conversing, Option.some.injEq] at stepped
    rw [← stepped]
    exact Conversation.sound_ask sound side performs option on

theorem conversing_run_sound {talk final : Conversation} {actions : List TalkAction}
    (sound : talk.Sound) (ran : conversing.run talk actions = some final) : final.Sound :=
  Machine.invariant (fun _ _ _ holds _ stepped => conversing_sound holds stepped) sound
    (Machine.along_true _ _ _) ran

/-- A sound conversation has at most two commands for each request. -/
theorem Conversation.Sound.sent_le {talk : Conversation} (sound : talk.Sound) :
    talk.sent.length ≤ 2 * talk.asked.length := by
  have within : talk.sent.Subperm (talk.asked ++ talk.asked) := by
    refine subperm_ext_iff.mpr fun topic _ => ?_
    obtain ⟨owed, _, covered⟩ := sound topic
    rw [count_append]
    omega
  have short := within.length_le
  rw [length_append] at short
  omega

/-- A sound conversation in which nothing is left to hear is settled in every topic. -/
theorem Conversation.Sound.settled {talk : Conversation} (sound : talk.Sound)
    (heardAll : ∀ side, talk.coming side = []) (topic : Topic) :
    talk.held .left topic = talk.held .right topic ∧ (talk.held .left topic).awaits = false := by
  obtain ⟨owed, due, _⟩ := sound topic
  refine Link.settled_of_dues due ?_ ?_
  · show messages _ _ (talk.coming .left) = []
    rw [heardAll]
    rfl
  · show messages _ _ (talk.coming (Side.other .left)) = []
    rw [heardAll]
    rfl

end Oryxis.Telnet

/-
This file proves that a subnegotiation is read as it was framed: whatever its body and
however the stream is cut, the reader hands on the option and the body, and none of it
as data. A body beyond the limit is given up, and what it holds back never exceeds the
limit; behind its terminator the reader passes data again.
-/

import Oryxis.Telnet.Wire

namespace Oryxis.Telnet

open List

/-! ### What a stream delivers -/

namespace Negotiator

/-- The subnegotiation that a byte ends: what `handleSubnegotiation` is run on. -/
def delivers (neg : Negotiator) (byte : UInt8) : Option (UInt8 × List UInt8) :=
  if neg.state = .subnegIac ∧ byte = se then some (neg.subnegOption, neg.subnegBuf) else none

def deliveries (policy : Policy) (neg : Negotiator) : List UInt8 → List (UInt8 × List UInt8)
  | [] => []
  | byte :: rest => (neg.delivers byte).toList ++ (neg.receiveByte policy byte).1.deliveries policy rest

/-- What comes of the chunks of a stream: the reader behind them, the data and the replies, and the
subnegotiations delivered. -/
structure Heard where
  neg : Negotiator
  step : Step
  delivered : List (UInt8 × List UInt8)

def hear (policy : Policy) (neg : Negotiator) : List (List UInt8) → Heard
  | [] => ⟨neg, ⟨[], []⟩, []⟩
  | chunk :: rest =>
    let received := neg.receive policy chunk
    let later := received.1.hear policy rest
    { neg := later.neg
      step := ⟨received.2.app ++ later.step.app, received.2.wire ++ later.step.wire⟩
      delivered := (if neg.raw then [] else neg.deliveries policy chunk) ++ later.delivered }

end Negotiator

/-- A negotiator as a Telnet session has it: the new one, after what it received and the changes of
its window. -/
inductive Negotiates (policy : Policy) : Negotiator → Prop
  | new (term : List UInt8) (username : Option (List UInt8)) :
      Negotiates policy (Negotiator.new policy term username).1
  | receive {neg : Negotiator} (before : Negotiates policy neg) (chunk : List UInt8) :
      Negotiates policy (neg.receive policy chunk).1
  | setWindow {neg : Negotiator} (before : Negotiates policy neg) (cols rows : UInt16) :
      Negotiates policy (neg.setWindow cols rows).1

/-- What is promised of a subnegotiation with this body. -/
structure FramesBody (policy : Policy) (neg : Negotiator) (option : UInt8) (body : List UInt8) :
    Prop where
  /-- A body within the limit is delivered, and nothing else. -/
  delivered : body.length ≤ subnegMax → ∀ chunks : List (List UInt8),
    chunks.flatten = subnegotiation option body →
      (neg.hear policy chunks).delivered = [(option, body)] ∧
        (neg.hear policy chunks).step.app = [] ∧
        (neg.hear policy chunks).step.wire =
          { neg with subnegOption := option, subnegBuf := body }.handleSubnegotiation.2
  /-- Behind the terminator data is passed. -/
  passes : ∀ chunks : List (List UInt8), chunks.flatten = subnegotiation option body →
    (neg.hear policy chunks).neg.state = .data ∧
      ∀ text : List UInt8, (∀ byte ∈ text, byte ≠ iac ∧ byte ≠ 0) →
        ((neg.hear policy chunks).neg.receive policy text).2.app = text

/-! ### Chunks -/

namespace Negotiator

variable {policy : Policy} {neg : Negotiator}

theorem receiveBytes_append (first second : List UInt8) :
    neg.receiveBytes policy (first ++ second) =
      (((neg.receiveBytes policy first).1.receiveBytes policy second).1,
        ⟨(neg.receiveBytes policy first).2.app ++
          ((neg.receiveBytes policy first).1.receiveBytes policy second).2.app,
        (neg.receiveBytes policy first).2.wire ++
          ((neg.receiveBytes policy first).1.receiveBytes policy second).2.wire⟩) := by
  induction first generalizing neg with
  | nil => rfl
  | cons byte rest inductionHypothesis =>
    rw [cons_append, receiveBytes_cons, inductionHypothesis, receiveBytes_cons,
      append_assoc, append_assoc]

theorem deliveries_append (first second : List UInt8) :
    neg.deliveries policy (first ++ second) =
      neg.deliveries policy first ++
        (neg.receiveBytes policy first).1.deliveries policy second := by
  induction first generalizing neg with
  | nil => rfl
  | cons byte rest inductionHypothesis =>
    rw [cons_append, deliveries, inductionHypothesis, deliveries, receiveBytes_cons,
      append_assoc]

theorem raw_receiveBytes (bytes : List UInt8) :
    (neg.receiveBytes policy bytes).1.raw = neg.raw := by
  induction bytes generalizing neg with
  | nil => rfl
  | cons byte rest inductionHypothesis =>
    rw [receiveBytes_cons, inductionHypothesis, (receiveByte_received policy neg byte).raw]

/-- However the stream is cut, the same comes of it. -/
theorem hear_eq_receiveBytes (telnet : neg.raw = false) (chunks : List (List UInt8)) :
    neg.hear policy chunks =
      ⟨(neg.receiveBytes policy chunks.flatten).1, (neg.receiveBytes policy chunks.flatten).2,
        neg.deliveries policy chunks.flatten⟩ := by
  induction chunks generalizing neg with
  | nil => rfl
  | cons chunk rest inductionHypothesis =>
    have received : neg.receive policy chunk = neg.receiveBytes policy chunk := by
      simp [receive, telnet]
    rw [hear, received, inductionHypothesis ((raw_receiveBytes chunk).trans telnet),
      flatten_cons, receiveBytes_append, deliveries_append, telnet]
    rfl

/-! ### The reader of a body -/

theorem receiveBytes_body {held : List UInt8} (body : List UInt8)
    (inside : neg.state = .subnegData) (holds : neg.subnegBuf = held)
    (fits : held.length + body.length ≤ subnegMax) :
    neg.receiveBytes policy (escapeIac body) =
        ({ neg with subnegBuf := held ++ body }, ⟨[], []⟩) ∧
      neg.deliveries policy (escapeIac body) = [] := by
  induction body generalizing neg held with
  | nil =>
    subst holds
    rw [escapeIac, append_nil]
    exact ⟨rfl, rfl⟩
  | cons byte rest inductionHypothesis =>
    rw [length_cons] at fits
    have room : ¬ subnegMax ≤ held.length := by omega
    have moved : neg.receiveBytes policy (if byte = iac then [iac, byte] else [byte]) =
          ({ neg with subnegBuf := held ++ [byte] }, ⟨[], []⟩) ∧
        neg.deliveries policy (if byte = iac then [iac, byte] else [byte]) = [] := by
      by_cases escaped : byte = iac
      · subst escaped
        have notEnd : iac ≠ se := by decide
        simp [receiveBytes, receiveByte, deliveries, delivers, inside, holds, room, notEnd]
      · simp [receiveBytes, receiveByte, deliveries, delivers, inside, holds, room, escaped]
    obtain ⟨later, silent⟩ := @inductionHypothesis { neg with subnegBuf := held ++ [byte] } _
      inside rfl (by rw [length_append, length_singleton]; omega)
    rw [escapeIac, receiveBytes_append, deliveries_append, moved.1, moved.2, later, silent,
      append_assoc]
    exact ⟨rfl, rfl⟩

theorem receiveBytes_subnegotiation (inData : neg.state = .data) (option : UInt8)
    {body : List UInt8} (fits : body.length ≤ subnegMax) :
    (neg.receiveBytes policy (subnegotiation option body)).2 =
        ⟨[], { neg with subnegOption := option, subnegBuf := body }.handleSubnegotiation.2⟩ ∧
      neg.deliveries policy (subnegotiation option body) = [(option, body)] := by
  obtain ⟨read, silent⟩ := @receiveBytes_body policy
    { neg with subnegOption := option, subnegBuf := [], state := .subnegData } [] body rfl rfl
    (by rw [length_nil]; omega)
  have opened : neg.receiveBytes policy [iac, sb, option] =
        ({ neg with subnegOption := option, subnegBuf := [], state := .subnegData }, ⟨[], []⟩) ∧
      neg.deliveries policy [iac, sb, option] = [] := by
    have notIac : sb ≠ iac := by decide
    have noVerb : Verb.ofByte sb = none := by decide
    simp [receiveBytes, receiveByte, deliveries, delivers, inData, notIac, noVerb]
  have ended : se ≠ iac := by decide
  rw [subnegotiation, receiveBytes_append, deliveries_append, receiveBytes_append,
    deliveries_append, opened.1, opened.2, read, silent]
  constructor
  · simp [receiveBytes, receiveByte, ended, handleSubnegotiation]
  · simp [deliveries, delivers, receiveByte]

/-! ### What a reader keeps -/

theorem position_receiveBytes (bytes : List UInt8) :
    (neg.receiveBytes policy bytes).1.position = (neg.position.scanAll subnegFull bytes).1 := by
  induction bytes generalizing neg with
  | nil => rfl
  | cons byte rest inductionHypothesis =>
    rw [receiveBytes_cons, inductionHypothesis, (receiveByte_received policy neg byte).position]
    rfl

theorem length_receiveByte (byte : UInt8) (within : neg.subnegBuf.length ≤ subnegMax) :
    (neg.receiveByte policy byte).1.subnegBuf.length ≤ subnegMax := by
  have moved := congrArg Position.held (receiveByte_received policy neg byte).position
  change (neg.receiveByte policy byte).1.subnegBuf.length = _ at moved
  rw [moved]
  have held : neg.position.held ≤ subnegMax := within
  generalize neg.position = position at held
  unfold Position.scan
  split
  · exact held
  · split
    · exact held
    · split <;> exact held
  · exact held
  · exact Nat.zero_le _
  · split
    · exact held
    · split
      · exact Nat.zero_le _
      · rename_i free
        rw [subnegFull_iff] at free
        show position.held + 1 ≤ subnegMax
        omega
  · split
    · split
      · exact Nat.zero_le _
      · rename_i free
        rw [subnegFull_iff] at free
        show position.held + 1 ≤ subnegMax
        omega
    · split
      · exact Nat.zero_le _
      · split <;> exact Nat.zero_le _

theorem length_receiveBytes (bytes : List UInt8) (within : neg.subnegBuf.length ≤ subnegMax) :
    (neg.receiveBytes policy bytes).1.subnegBuf.length ≤ subnegMax := by
  induction bytes generalizing neg with
  | nil => exact within
  | cons byte rest inductionHypothesis =>
    rw [receiveBytes_cons]
    exact inductionHypothesis (length_receiveByte byte within)

/-- Data without commands and paddings is passed as it is. -/
theorem receiveBytes_text (inData : neg.state = .data) {text : List UInt8}
    (plain : ∀ byte ∈ text, byte ≠ iac ∧ byte ≠ 0) :
    (neg.receiveBytes policy text).2.app = text := by
  induction text generalizing neg with
  | nil => rfl
  | cons byte rest inductionHypothesis =>
    obtain ⟨notIac, notZero⟩ := plain byte mem_cons_self
    have passed : neg.receiveByte policy byte =
        ({ neg with lastWasCr := byte = carriageReturn }, ⟨[byte], []⟩) := by
      simp [receiveByte, inData, notIac, notZero]
    rw [receiveBytes_cons, passed]
    exact congrArg (byte :: ·) (inductionHypothesis inData
      fun later member => plain later (mem_cons_of_mem _ member))

end Negotiator

/-! ### Subnegotiations -/

theorem Negotiates.bounds {policy : Policy} {neg : Negotiator} (negotiates : Negotiates policy neg) :
    neg.raw = false ∧ neg.subnegBuf.length ≤ subnegMax := by
  induction negotiates with
  | new term username => exact ⟨rfl, Nat.zero_le _⟩
  | @receive neg before chunk inductionHypothesis =>
    obtain ⟨telnet, within⟩ := inductionHypothesis
    have received : neg.receive policy chunk = neg.receiveBytes policy chunk := by
      simp [Negotiator.receive, telnet]
    rw [received]
    exact ⟨(Negotiator.raw_receiveBytes chunk).trans telnet,
      Negotiator.length_receiveBytes chunk within⟩
  | setWindow before cols rows inductionHypothesis => exact inductionHypothesis

/-- Whatever its body, a subnegotiation is read as it was framed, and whatever comes in, the reader
holds back no more than the limit. -/
theorem framing_of_negotiates {policy : Policy} {neg : Negotiator}
    (negotiates : Negotiates policy neg) :
    (neg.state = .data → ∀ option body, FramesBody policy neg option body) ∧
      ∀ chunks : List (List UInt8), (neg.hear policy chunks).neg.subnegBuf.length ≤ subnegMax := by
  obtain ⟨telnet, within⟩ := negotiates.bounds
  constructor
  · intro inData option body
    constructor
    · intro fits chunks framed
      obtain ⟨step, delivered⟩ :=
        @Negotiator.receiveBytes_subnegotiation policy neg inData option body fits
      rw [Negotiator.hear_eq_receiveBytes telnet, framed, step, delivered]
      exact ⟨rfl, rfl, rfl⟩
    · intro chunks framed
      rw [Negotiator.hear_eq_receiveBytes telnet, framed]
      have again : (neg.receiveBytes policy (subnegotiation option body)).1.state = .data := by
        obtain ⟨held, read⟩ := carries_subnegotiation option body subnegFull neg.subnegBuf.length
        have moved : (neg.receiveBytes policy (subnegotiation option body)).1.position = _ :=
          Negotiator.position_receiveBytes (subnegotiation option body)
        have here : neg.position = ⟨.data, neg.subnegBuf.length⟩ := by
          rw [Negotiator.position, inData]
        rw [here, read] at moved
        exact congrArg Position.state moved
      refine ⟨again, fun text plain => ?_⟩
      have still : (neg.receiveBytes policy (subnegotiation option body)).1.raw = false :=
        (Negotiator.raw_receiveBytes _).trans telnet
      simp only [Negotiator.receive, still]
      exact Negotiator.receiveBytes_text again plain
  · intro chunks
    rw [Negotiator.hear_eq_receiveBytes telnet]
    exact Negotiator.length_receiveBytes _ within

/-- A body that holds the escape byte, cut behind it. -/
theorem framing_escaped : ((Negotiator.new clientPolicy [] none).1.hear clientPolicy
    [[iac, sb, 7, iac], [iac, iac], [se]]).delivered = [(7, [iac])] :=
  (((framing_of_negotiates (.new [] none)).1 rfl 7 [iac]).delivered (by decide) _ rfl).1

end Oryxis.Telnet

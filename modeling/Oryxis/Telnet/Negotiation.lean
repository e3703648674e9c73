/-
This file is Telnet option negotiation: the negotiator, which takes the bytes that come
in apart into data and commands and answers the commands, and the bytes it sends.

What a command does to an option is the Q method, on the negotiator's own side for the
commands that ask about it and on the far side for those that tell of it. The commands a
stream of bytes carries do not depend on what the options are set to, so they can be read
off the bytes on the wire; whatever a negotiator puts there, a command, a report, an
answer or what the user types, is whole, and carries the commands it is meant to carry.
-/

import Mathlib.Logic.Function.Basic
import Oryxis.Library.QMethod

namespace Oryxis.Telnet

open Library

/-! ### Bytes -/

abbrev iac : UInt8 := 255
abbrev sb : UInt8 := 250
abbrev ayt : UInt8 := 246
abbrev se : UInt8 := 240
abbrev carriageReturn : UInt8 := 13
abbrev lineFeed : UInt8 := 10

def optEcho : UInt8 := 1
def optSga : UInt8 := 3
def optTtype : UInt8 := 24
def optNaws : UInt8 := 31
def optNewEnviron : UInt8 := 39

def ttypeIs : UInt8 := 0
def ttypeSend : UInt8 := 1

def envIs : UInt8 := 0
def envSend : UInt8 := 1
def envVar : UInt8 := 0
def envValue : UInt8 := 1
def envEsc : UInt8 := 2
def envUservar : UInt8 := 3

def subnegMax : Nat := 4096

inductive Verb where
  | will
  | wont
  | «do»
  | dont
  deriving DecidableEq, Repr

def Verb.byte : Verb → UInt8
  | .dont => 254
  | .do => 253
  | .wont => 252
  | .will => 251

def Verb.ofByte (byte : UInt8) : Option Verb :=
  if byte = 254 then some .dont
  else if byte = 253 then some .do
  else if byte = 252 then some .wont
  else if byte = 251 then some .will
  else none

/-- Whether the speaker of the verb is the one to perform the option. -/
def Verb.performs : Verb → Bool
  | .will | .wont => true
  | .do | .dont => false

def Verb.on : Verb → Bool
  | .will | .do => true
  | .wont | .dont => false

def Verb.of : Bool → Bool → Verb
  | true, true => .will
  | true, false => .wont
  | false, true => .do
  | false, false => .dont

def command (verb : Verb) (option : UInt8) : List UInt8 := [iac, verb.byte, option]

/-- Payload with its interpret-as-command bytes doubled. -/
def escapeIac : List UInt8 → List UInt8
  | [] => []
  | byte :: rest => (if byte = iac then [iac, byte] else [byte]) ++ escapeIac rest

def subnegotiation (option : UInt8) (body : List UInt8) : List UInt8 :=
  [iac, sb, option] ++ escapeIac body ++ [iac, se]

/-- Typed input: a carriage return, a line feed or both submit a line. -/
def encodeInput : List UInt8 → List UInt8
  | [] => []
  | byte :: rest =>
    if byte = iac then [iac, iac] ++ encodeInput rest
    else if byte = carriageReturn then
      match rest with
      | [] => [carriageReturn, lineFeed]
      | next :: others =>
        if next = lineFeed then [carriageReturn, lineFeed] ++ encodeInput others
        else [carriageReturn, lineFeed] ++ encodeInput (next :: others)
    else if byte = lineFeed then [carriageReturn, lineFeed] ++ encodeInput rest
    else byte :: encodeInput rest

/-- "\r\n[oryxis: yes]\r\n" -/
def presence : List UInt8 :=
  [13, 10, 91, 111, 114, 121, 120, 105, 115, 58, 32, 121, 101, 115, 93, 13, 10]

/-! ### The negotiator -/

inductive ParseState where
  | data
  | iac
  | command (verb : Verb)
  | subnegOption
  | subnegData
  | subnegIac
  deriving DecidableEq, Repr

/-- Which options a negotiator agrees to perform, which it lets the far side perform, and which of
both it opens with. -/
structure Policy where
  weSupport : UInt8 → Bool
  theySupport : UInt8 → Bool
  offers : List UInt8
  requests : List UInt8
  offers_nodup : offers.Nodup
  requests_nodup : requests.Nodup

def weSupport (option : UInt8) : Bool :=
  option = optSga || option = optTtype || option = optNaws || option = optNewEnviron

def theySupport (option : UInt8) : Bool := option = optEcho || option = optSga

/-- The policy that is built in. -/
def clientPolicy : Policy where
  weSupport := weSupport
  theySupport := theySupport
  offers := [optTtype, optNaws, optNewEnviron, optSga]
  requests := [optEcho, optSga]
  offers_nodup := by decide
  requests_nodup := by decide

/-- Decoded application bytes, and protocol bytes to write back. -/
structure Step where
  app : List UInt8
  wire : List UInt8

structure Negotiator where
  us : UInt8 → QState
  him : UInt8 → QState
  state : ParseState
  subnegOption : UInt8
  subnegBuf : List UInt8
  lastWasCr : Bool
  term : List UInt8
  username : Option (List UInt8)
  cols : UInt16
  rows : UInt16
  raw : Bool

namespace Negotiator

def blank (term : List UInt8) (username : Option (List UInt8)) (raw : Bool) : Negotiator :=
  ⟨fun _ => .no, fun _ => .no, .data, 0, [], false, term, username, 80, 24, raw⟩

/-- The negotiator and its greeting. -/
def new (policy : Policy) (term : List UInt8) (username : Option (List UInt8)) :
    Negotiator × List UInt8 :=
  ({ blank term username false with
      us := fun option => if option ∈ policy.offers then .wantYes else .no
      him := fun option => if option ∈ policy.requests then .wantYes else .no },
    policy.offers.flatMap (command .will) ++ policy.requests.flatMap (command .do))

/-- A bare socket: no options and no replies. -/
def ofRaw : Negotiator := blank [] none true

def setUs (neg : Negotiator) (option : UInt8) (state : QState) : Negotiator :=
  { neg with us := Function.update neg.us option state }

def setHim (neg : Negotiator) (option : UInt8) (state : QState) : Negotiator :=
  { neg with him := Function.update neg.him option state }

def nawsPacket (neg : Negotiator) : List UInt8 :=
  subnegotiation optNaws
    [(neg.cols >>> 8).toUInt8, neg.cols.toUInt8, (neg.rows >>> 8).toUInt8, neg.rows.toUInt8]

def onLocalEnabled (neg : Negotiator) (option : UInt8) : List UInt8 :=
  if option = optNaws then neg.nawsPacket else []

def handleNegotiation (policy : Policy) (neg : Negotiator) (verb : Verb) (option : UInt8) :
    Negotiator × List UInt8 :=
  match verb with
  | .will =>
    match neg.him option with
    | .no =>
      if policy.theySupport option then (neg.setHim option .yes, command .do option)
      else (neg, command .dont option)
    | .yes => (neg, [])
    | .wantNo => (neg.setHim option .no, [])
    | .wantNoOpposite => (neg.setHim option .yes, [])
    | .wantYes => (neg.setHim option .yes, [])
    | .wantYesOpposite => (neg.setHim option .wantNo, command .dont option)
  | .wont =>
    match neg.him option with
    | .no => (neg, [])
    | .yes => (neg.setHim option .no, command .dont option)
    | .wantNo => (neg.setHim option .no, [])
    | .wantNoOpposite => (neg.setHim option .wantYes, command .do option)
    | .wantYes | .wantYesOpposite => (neg.setHim option .no, [])
  | .do =>
    match neg.us option with
    | .no =>
      if policy.weSupport option then
        (neg.setUs option .yes, command .will option ++ neg.onLocalEnabled option)
      else (neg, command .wont option)
    | .yes => (neg, [])
    | .wantNo => (neg.setUs option .no, [])
    | .wantNoOpposite => (neg.setUs option .yes, neg.onLocalEnabled option)
    | .wantYes => (neg.setUs option .yes, neg.onLocalEnabled option)
    | .wantYesOpposite => (neg.setUs option .wantNo, command .wont option)
  | .dont =>
    match neg.us option with
    | .no => (neg, [])
    | .yes => (neg.setUs option .no, command .wont option)
    | .wantNo => (neg.setUs option .no, [])
    | .wantNoOpposite => (neg.setUs option .wantYes, command .will option)
    | .wantYes | .wantYesOpposite => (neg.setUs option .no, [])

/-- The variable that names the user, its special bytes escaped. -/
def userVariable (user : List UInt8) : List UInt8 :=
  [envVar, 85, 83, 69, 82, envValue] ++ user.flatMap fun byte =>
    if byte = envVar ∨ byte = envValue ∨ byte = envEsc ∨ byte = envUservar then [envEsc, byte]
    else [byte]

def handleSubnegotiation (neg : Negotiator) : Negotiator × List UInt8 :=
  ({ neg with subnegBuf := [] },
    if neg.subnegOption = optTtype ∧ neg.subnegBuf.head? = some ttypeSend then
      subnegotiation optTtype (ttypeIs :: neg.term)
    else if neg.subnegOption = optNewEnviron ∧ neg.subnegBuf.head? = some envSend then
      subnegotiation optNewEnviron (envIs :: (neg.username.map userVariable).getD [])
    else [])

/-- One byte of the stream. -/
def receiveByte (policy : Policy) (neg : Negotiator) (byte : UInt8) : Negotiator × Step :=
  match neg.state with
  | .data =>
    if byte = iac then ({ neg with state := .iac }, ⟨[], []⟩)
    else if byte = 0 ∧ neg.lastWasCr then ({ neg with lastWasCr := false }, ⟨[], []⟩)
    else ({ neg with lastWasCr := byte = carriageReturn }, ⟨[byte], []⟩)
  | .iac =>
    if byte = iac then ({ neg with lastWasCr := false, state := .data }, ⟨[iac], []⟩)
    else match Verb.ofByte byte with
      | some verb => ({ neg with state := .command verb }, ⟨[], []⟩)
      | none =>
        if byte = sb then ({ neg with state := .subnegOption }, ⟨[], []⟩)
        else if byte = ayt then ({ neg with state := .data }, ⟨[], presence⟩)
        else ({ neg with state := .data }, ⟨[], []⟩)
  | .command verb =>
    let handled := neg.handleNegotiation policy verb byte
    ({ handled.1 with state := .data }, ⟨[], handled.2⟩)
  | .subnegOption =>
    ({ neg with subnegOption := byte, subnegBuf := [], state := .subnegData }, ⟨[], []⟩)
  | .subnegData =>
    if byte = iac then ({ neg with state := .subnegIac }, ⟨[], []⟩)
    else if subnegMax ≤ neg.subnegBuf.length then
      ({ neg with subnegBuf := [], lastWasCr := byte = carriageReturn, state := .data },
        ⟨[byte], []⟩)
    else ({ neg with subnegBuf := neg.subnegBuf ++ [byte] }, ⟨[], []⟩)
  | .subnegIac =>
    if byte = iac then
      if subnegMax ≤ neg.subnegBuf.length then
        ({ neg with subnegBuf := [], lastWasCr := false, state := .data }, ⟨[iac], []⟩)
      else ({ neg with subnegBuf := neg.subnegBuf ++ [iac], state := .subnegData }, ⟨[], []⟩)
    else if byte = se then
      let handled := neg.handleSubnegotiation
      ({ handled.1 with state := .data }, ⟨[], handled.2⟩)
    else match Verb.ofByte byte with
      | some verb => ({ neg with subnegBuf := [], state := .command verb }, ⟨[], []⟩)
      | none => ({ neg with subnegBuf := [], state := .data }, ⟨[], []⟩)

def receiveBytes (policy : Policy) (neg : Negotiator) : List UInt8 → Negotiator × Step
  | [] => (neg, ⟨[], []⟩)
  | byte :: rest =>
    let received := neg.receiveByte policy byte
    let later := received.1.receiveBytes policy rest
    (later.1, ⟨received.2.app ++ later.2.app, received.2.wire ++ later.2.wire⟩)

def receive (policy : Policy) (neg : Negotiator) (input : List UInt8) : Negotiator × Step :=
  if neg.raw then (neg, ⟨input, []⟩) else neg.receiveBytes policy input

/-- A change of the viewport, and the report of it where the option is on. -/
def setWindow (neg : Negotiator) (cols rows : UInt16) : Negotiator × Option (List UInt8) :=
  let resized := { neg with cols := cols, rows := rows }
  (resized, if neg.us optNaws = .yes then some resized.nawsPacket else none)

end Negotiator

end Oryxis.Telnet

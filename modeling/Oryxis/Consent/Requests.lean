/-
This file is what crosses the folder between the server for AI clients and the app: a
request for a host's stored password, the answer of a person, and the tag on it.

A tag is over the bytes of a request as they were read and over the decision, under a
key the folder's other writers do not have. What is tagged says unambiguously which
bytes and which decision it is: the decision stands last, and none of the three has
the separator in it. How requests and answers become bytes is a parameter.
-/

import Mathlib.Data.List.Basic

namespace Oryxis.Consent

open List

abbrev Bytes := List UInt8

def utf8 (text : String) : Bytes := text.toUTF8.data.toList

/-! ### Requests and answers -/

structure SudoRequest where
  id : String
  vaultId : Nat
  vaultLabel : String
  hostId : Nat
  hostLabel : String
  login : String
  address : String
  route : List String
  client : Option String
  command : String
  createdUnix : Nat
  deriving DecidableEq, Repr

/-- A request as an app claimed it, and the bytes it was read from. -/
structure Claimed where
  request : SudoRequest
  bytes : Bytes

inductive Decision
  | deny
  | once
  | session
  deriving DecidableEq, Repr

def Decision.allows (decision : Decision) : Bool := decide (decision ≠ .deny)

def Decision.wire : Decision → String
  | .deny => "deny"
  | .once => "once"
  | .session => "session"

inductive DenyReason
  | person
  | timedOut
  | locked
  | appClosed
  | unreadable
  | unknown
  deriving DecidableEq, Repr

structure Answer where
  decision : Decision
  reason : Option DenyReason
  tag : String
  deriving DecidableEq, Repr

/-- The answer to a request file an app cannot read. -/
def unreadable : Answer := ⟨.deny, some .unreadable, ""⟩

/-- Where a request stands, as its server sees it. -/
inductive Status
  | posted
  | claimed
  | answered (answer : Answer)
  | gone
  deriving DecidableEq, Repr

def maxCommandBytes : Nat := 32 * 1024

def maxRequestBytes : Nat := maxCommandBytes + 16 * 1024

/-- The shape of a request id: 32 lower-case hex digits. -/
def validId (id : String) : Bool :=
  id.utf8ByteSize = 32 && id.toList.all fun c => c.isDigit || ('a' ≤ c && c ≤ 'f')

/-- How requests and answers are written and read. -/
structure Codec where
  encodeRequest : SudoRequest → Bytes
  decodeRequest : Bytes → Option SudoRequest
  encodeAnswer : Answer → Bytes
  decodeAnswer : Bytes → Option Answer

/-- What the server takes an answer file for: one that cannot be read refuses, for no one. -/
def Codec.readAnswer (codec : Codec) (bytes : Bytes) : Answer :=
  (codec.decodeAnswer bytes).getD ⟨.deny, some .unknown, ""⟩

/-- A request as a file names it: it is read, and has the id the file is named by. -/
def Codec.readRequest (codec : Codec) (id : String) (bytes : Bytes) : Option SudoRequest :=
  (codec.decodeRequest bytes).filter fun request => request.id = id

/-! ### Hexadecimal text -/

def hexDigit (value : Nat) : Char :=
  if value < 10 then Char.ofNat ('0'.toNat + value) else Char.ofNat ('a'.toNat + (value - 10))

def hexDigits (bytes : Bytes) : List Char :=
  bytes.flatMap fun byte => [hexDigit (byte.toNat / 16), hexDigit (byte.toNat % 16)]

def hex (bytes : Bytes) : String := String.ofList (hexDigits bytes)

def hexValue (c : Char) : Option Nat :=
  if '0' ≤ c ∧ c ≤ '9' then some (c.toNat - '0'.toNat)
  else if 'a' ≤ c ∧ c ≤ 'f' then some (c.toNat - 'a'.toNat + 10)
  else if 'A' ≤ c ∧ c ≤ 'F' then some (c.toNat - 'A'.toNat + 10)
  else none

/-- Two characters read as a number in base 16. The first may also be a plus sign. -/
def hexByte (first second : Char) : Option UInt8 :=
  if first = '+' then (hexValue second).map UInt8.ofNat
  else do
    let high ← hexValue first
    let low ← hexValue second
    return UInt8.ofNat (16 * high + low)

def unhexDigits : List Char → Option Bytes
  | [] => some []
  | [_] => none
  | first :: second :: rest => do
    let byte ← hexByte first second
    let bytes ← unhexDigits rest
    return byte :: bytes

def unhex (text : String) : Option Bytes := unhexDigits text.toList

theorem hexByte_hexDigit (byte : UInt8) :
    hexByte (hexDigit (byte.toNat / 16)) (hexDigit (byte.toNat % 16)) = some byte := by
  have all : ∀ value : Fin 256,
      hexByte (hexDigit (value / 16)) (hexDigit (value % 16)) = some (UInt8.ofNat value) := by
    decide +kernel
  have same := all ⟨byte.toNat, byte.toNat_lt⟩
  rwa [UInt8.ofNat_toNat] at same

theorem unhexDigits_hexDigits (bytes : Bytes) : unhexDigits (hexDigits bytes) = some bytes := by
  induction bytes with
  | nil => rfl
  | cons byte bytes inductionHypothesis =>
    show unhexDigits (_ :: _ :: hexDigits bytes) = _
    rw [unhexDigits, hexByte_hexDigit, inductionHypothesis]
    rfl

theorem unhex_hex (bytes : Bytes) : unhex (hex bytes) = some bytes := by
  rw [unhex, hex, String.toList_ofList]
  exact unhexDigits_hexDigits bytes

/-! ### Tags -/

def separator : UInt8 := 0x1f

def tagMessage (request : Bytes) (decision : Decision) : Bytes :=
  separator :: request ++ separator :: utf8 decision.wire

def consentContext : Bytes := utf8 "oryxis.mcp.sudo_consent.v1"

theorem separator_notMem_wire (decision : Decision) : separator ∉ utf8 decision.wire := by
  cases decision <;> decide +kernel

theorem wire_injective {first second : Decision} (same : utf8 first.wire = utf8 second.wire) :
    first = second := by
  revert same
  cases first <;> cases second <;> decide +kernel

/-- Two texts that end after the last separator in the same way are the same. -/
theorem append_separator_injective {first second rest otherRest : Bytes}
    (notMem : separator ∉ rest) (otherNotMem : separator ∉ otherRest)
    (same : first ++ separator :: rest = second ++ separator :: otherRest) :
    first = second ∧ rest = otherRest := by
  rcases append_eq_append_iff.mp same with ⟨between, rfl, isRest⟩ | ⟨between, rfl, isRest⟩
  · cases between with
    | nil => exact ⟨(append_nil first).symm, (cons.inj isRest).2⟩
    | cons head tail =>
      refine absurd ?_ notMem
      rw [(cons.inj isRest).2]
      exact mem_append_right _ mem_cons_self
  · cases between with
    | nil => exact ⟨append_nil second, (cons.inj isRest).2.symm⟩
    | cons head tail =>
      refine absurd ?_ otherNotMem
      rw [(cons.inj isRest).2]
      exact mem_append_right _ mem_cons_self

variable {request : Bytes} {decision otherDecision : Decision}

/-- What is tagged says which bytes and which decision. -/
theorem tagMessage_injective {other : Bytes}
    (same : tagMessage request decision = tagMessage other otherDecision) :
    request = other ∧ decision = otherDecision := by
  obtain ⟨requests, wires⟩ := append_separator_injective (separator_notMem_wire decision)
    (separator_notMem_wire otherDecision) (cons.inj same).2
  exact ⟨requests, wire_injective wires⟩

/-- A message authentication code: no tag is empty, and no two keys or messages have the same. -/
structure Mac (Key : Type*) where
  tag : Key → Bytes → Bytes
  nonempty : ∀ key message, tag key message ≠ []
  injective : ∀ {key other message otherMessage}, tag key message = tag other otherMessage →
    key = other ∧ message = otherMessage

variable {Key : Type*}

def Mac.consentMac (mac : Mac Key) (key : Key) (request : Bytes) (decision : Decision) : Bytes :=
  mac.tag key (consentContext ++ tagMessage request decision)

def Mac.mcpConsentTag (mac : Mac Key) (key : Key) (request : Bytes) (decision : Decision) :
    String :=
  hex (mac.consentMac key request decision)

/-- A vault that is locked, and a tag that is none, verify nothing. -/
def Mac.verifyMcpConsentTag (mac : Mac Key) (key : Option Key) (request : Bytes)
    (decision : Decision) (tag : String) : Bool :=
  match key, unhex tag with
  | some key, some tag => mac.consentMac key request decision = tag
  | _, _ => false

theorem Mac.consentMac_injective (mac : Mac Key) {key other : Key} {otherRequest : Bytes}
    (same : mac.consentMac key request decision = mac.consentMac other otherRequest otherDecision) :
    key = other ∧ request = otherRequest ∧ decision = otherDecision := by
  obtain ⟨sameKey, sameMessage⟩ := mac.injective same
  exact ⟨sameKey, tagMessage_injective (append_cancel_left sameMessage)⟩

theorem Mac.unhex_of_verify {mac : Mac Key} {key : Option Key} {tag : String}
    (verified : mac.verifyMcpConsentTag key request decision tag) :
    ∃ unlocked, key = some unlocked ∧ unhex tag = some (mac.consentMac unlocked request decision) := by
  unfold Mac.verifyMcpConsentTag at verified
  split at verified
  · rename_i unlocked bytes isBytes
    exact ⟨unlocked, rfl, isBytes.trans (congrArg some (of_decide_eq_true verified).symm)⟩
  · cases verified

/-! ### One request and its answers -/

def sampleRequest : SudoRequest where
  id := "0123456789abcdef0123456789abcdef"
  vaultId := 7
  vaultLabel := "Personal"
  hostId := 9
  hostLabel := "web"
  login := "deploy"
  address := "10.0.0.5:22"
  route := []
  client := none
  command := "reboot"
  createdUnix := 1

def sampleBytes : Bytes := utf8 <|
  "\x7b\"id\":\"0123456789abcdef0123456789abcdef\"," ++
  "\"vault_id\":\"00000000-0000-0000-0000-000000000007\",\"vault_label\":\"Personal\"," ++
  "\"host_id\":\"00000000-0000-0000-0000-000000000009\",\"host_label\":\"web\"," ++
  "\"login\":\"deploy\",\"address\":\"10.0.0.5:22\",\"route\":[],\"client\":null," ++
  "\"command\":\"reboot\",\"created_unix\":1\x7d"

def decisionByte : Decision → UInt8
  | .deny => 0
  | .once => 1
  | .session => 2

def reasonByte : Option DenyReason → UInt8
  | none => 0
  | some .person => 1
  | some .timedOut => 2
  | some .locked => 3
  | some .appClosed => 4
  | some .unreadable => 5
  | some .unknown => 6

def decisionOfByte (byte : UInt8) : Option Decision :=
  [Decision.deny, .once, .session].find? fun decision => decisionByte decision = byte

def reasonOfByte (byte : UInt8) : Option (Option DenyReason) :=
  [none, some .person, some .timedOut, some .locked, some .appClosed, some .unreadable,
    some .unknown].find? fun reason => reasonByte reason = byte

/-- A request and an answer in the bytes they have in a file. Any other answer has bytes that no
file has. -/
def sampleCodec (answer : Answer) (answerBytes : Bytes) : Codec where
  encodeRequest request := if request = sampleRequest then sampleBytes else []
  decodeRequest bytes := if bytes = sampleBytes then some sampleRequest else none
  encodeAnswer other :=
    if other = answer then answerBytes
    else 0 :: decisionByte other.decision :: reasonByte other.reason :: utf8 other.tag
  decodeAnswer bytes :=
    if bytes = answerBytes then some answer
    else match bytes with
      | 0 :: decision :: reason :: tag => do
        return ⟨← decisionOfByte decision, ← reasonOfByte reason,
          ← String.fromUTF8? ⟨tag.toArray⟩⟩
      | _ => none

theorem fromUTF8_utf8 (text : String) : String.fromUTF8? ⟨(utf8 text).toArray⟩ = some text := by
  show String.fromUTF8? ⟨text.toUTF8.data.toList.toArray⟩ = some text
  rw [Array.toArray_toList]
  exact dif_pos text.isValidUTF8

theorem sampleCodec_answer {answer : Answer} {answerBytes : Bytes}
    (notMarked : ∀ rest, answerBytes ≠ 0 :: rest) (other : Answer) :
    (sampleCodec answer answerBytes).decodeAnswer
      ((sampleCodec answer answerBytes).encodeAnswer other) = some other := by
  by_cases same : other = answer
  · have encoded : (sampleCodec answer answerBytes).encodeAnswer other = answerBytes := if_pos same
    rw [encoded, same]
    exact if_pos rfl
  · have encoded : (sampleCodec answer answerBytes).encodeAnswer other =
        0 :: decisionByte other.decision :: reasonByte other.reason :: utf8 other.tag :=
      if_neg same
    have decision : decisionOfByte (decisionByte other.decision) = some other.decision := by
      cases other.decision <;> rfl
    have reason : reasonOfByte (reasonByte other.reason) = some other.reason := by
      cases other.reason with
      | none => rfl
      | some reason => cases reason <;> rfl
    rw [encoded]
    refine (if_neg (notMarked _).symm).trans ?_
    show (decisionOfByte _).bind _ = some other
    rw [decision, reason, fromUTF8_utf8]
    rfl

end Oryxis.Consent

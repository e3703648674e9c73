/-
This file is the scanner that picks the operating system commands out of terminal output
that the emulator does not report: the working directory, notifications, progress and the
marks of the shell integration.

It only reads. A sequence may be cut anywhere between two chunks; a mark is reported in the
chunk its terminator is in, with the offset just behind it. A command line is kept apart
under a number, and the mark has the number.
-/

import Oryxis.Library.Decimal
import Oryxis.Library.Text
import Oryxis.Library.Utf8
import Mathlib.Algebra.Ring.Int.Defs

namespace Oryxis.Terminal.Osc

open Library

/-! ### Payloads -/

abbrev esc : UInt8 := 0x1b
abbrev bel : UInt8 := 0x07
abbrev bracket : UInt8 := 0x5d
abbrev backslash : UInt8 := 0x5c
abbrev percent : UInt8 := 0x25

inductive ShellMark where
  | promptStart
  | promptEnd
  | outputStart
  | commandEnd (code : Option Int)
  /-- The number under which the text is kept. -/
  | commandLine (id : UInt32)
  deriving DecidableEq, Repr

structure MarkEvent where
  /-- In the chunk, just behind the terminator. -/
  offset : Nat
  mark : ShellMark

structure Progress where
  state : Nat
  value : Nat

def parseI32 (text : List Char) : Option Int :=
  let digits := if text.head? = some '-' ∨ text.head? = some '+' then text.tail else text
  if digits.isEmpty || !digits.all Char.isDigit then none
  else
    let size : Int := Nat.ofDigitChars 10 digits 0
    let value := if text.head? = some '-' then -size else size
    if -2 ^ 31 ≤ value ∧ value < 2 ^ 31 then some value else none

def hexDigit (byte : UInt8) : Option UInt8 :=
  if 0x30 ≤ byte ∧ byte ≤ 0x39 then some (byte - 0x30)
  else if 0x61 ≤ byte ∧ byte ≤ 0x66 then some (byte - 0x61 + 10)
  else if 0x41 ≤ byte ∧ byte ≤ 0x46 then some (byte - 0x41 + 10)
  else none

/-- Two digits of a byte. -/
def hexByte : List UInt8 → Option UInt8
  | high :: low :: _ =>
    match hexDigit high, hexDigit low with
    | some high, some low => some (high * 16 + low)
    | _, _ => none
  | _ => none

/-- Bytes decoded one after the other: what is decoded at a byte, and how many more it takes. -/
def decodeUnits (unit : UInt8 → List UInt8 → UInt8 × Nat) : Nat → List UInt8 → List UInt8
  | _, [] => []
  | skipped + 1, _ :: rest => decodeUnits unit skipped rest
  | 0, byte :: rest => (unit byte rest).1 :: decodeUnits unit (unit byte rest).2 rest

def percentUnit (byte : UInt8) (rest : List UInt8) : UInt8 × Nat :=
  if byte = percent then
    match hexByte rest with
    | some decoded => (decoded, 2)
    | none => (byte, 0)
  else (byte, 0)

def percentDecode (text : List Char) : String :=
  fromUtf8Lossy (decodeUnits percentUnit 0 (utf8Bytes text))

/-- A malformed escape is left as it is. -/
def osc633Unit (byte : UInt8) (rest : List UInt8) : UInt8 × Nat :=
  if byte = backslash then
    match rest with
    | [] => (byte, 0)
    | kind :: digits =>
      if kind = backslash then (backslash, 1)
      else if kind ||| 0x20 = 0x78 then
        match hexByte digits with
        | some decoded => (decoded, 3)
        | none => (byte, 0)
      else (byte, 0)
  else (byte, 0)

def decodeOsc633Arg (raw : List Char) : String :=
  fromUtf8Lossy (decodeUnits osc633Unit 0 (utf8Bytes raw))

def parseOsc7 (rest : List Char) : Option String :=
  let afterScheme := (stripPrefix ['f', 'i', 'l', 'e', ':', '/', '/'] rest).getD rest
  let path := afterScheme.dropWhile (· ≠ '/')
  if path.isEmpty then none else some (percentDecode path)

/-- What stands before the first semicolon. -/
def firstField (text : List Char) : List Char := ((splitOnce ';' text).map Prod.fst).getD text

def parseOsc133 (rest : List Char) : Option ShellMark :=
  match rest with
  | 'A' :: _ => some .promptStart
  | 'B' :: _ => some .promptEnd
  | 'C' :: _ => some .outputStart
  | 'D' :: _ =>
    some (.commandEnd ((splitOnce ';' rest).bind fun parts => parseI32 (firstField parts.2)))
  | _ => none

def parseProgress (text : List Char) : Option Progress :=
  let parts := (splitOnce ';' text).getD (text, ['0'])
  (parseUnsigned 256 (trimmed parts.1)).map fun state =>
    ⟨state, min ((parseUnsigned 256 (trimmed parts.2)).getD 0) 100⟩

/-! ### The scanner -/

inductive Scan where
  | normal
  | esc
  | osc
  /-- After an escape byte in a sequence. -/
  | oscEsc
  deriving DecidableEq, Repr

/-- The longest payload that is accepted. -/
def maxOsc : Nat := 8192

def maxCommandLines : Nat := 64

structure OscSniffer where
  scan : Scan
  buf : List UInt8
  cwd : Option String
  notification : Option String
  progress : Option Progress
  commandLines : List (UInt32 × String)
  commandSeq : UInt32
  /-- Instead of the process-wide nonce. -/
  nonce : Option String
  nonceRefusalLogged : Bool

namespace OscSniffer

def default : OscSniffer := ⟨.normal, [], none, none, none, [], 0, none, false⟩

/-- A command line goes to the end of those that are kept, and the oldest makes room. -/
def keepCommandLine (sniffer : OscSniffer) (text : String) : OscSniffer :=
  let kept :=
    if maxCommandLines ≤ sniffer.commandLines.length then sniffer.commandLines.tail
    else sniffer.commandLines
  { sniffer with
    commandLines := kept ++ [(sniffer.commandSeq, text)]
    commandSeq := sniffer.commandSeq + 1 }

def parseOsc633 (globalNonce : Option String) (sniffer : OscSniffer) (rest : List Char) :
    OscSniffer × Option ShellMark :=
  let parts := splitn 3 ';' rest
  match parts.head? with
  | some ['A'] => (sniffer, some .promptStart)
  | some ['B'] => (sniffer, some .promptEnd)
  | some ['C'] => (sniffer, some .outputStart)
  | some ['D'] => (sniffer, some (.commandEnd (parts[1]?.bind parseI32)))
  | some ['E'] =>
    match parts[1]? with
    | none => (sniffer, none)
    | some raw =>
      let expected := sniffer.nonce.or globalNonce
      if expected = none ∨ parts[2]?.map String.ofList ≠ expected then
        ({ sniffer with nonceRefusalLogged := true }, none)
      else
        let text := decodeOsc633Arg raw
        if text = "" then (sniffer, none)
        else (sniffer.keepCommandLine text, some (.commandLine sniffer.commandSeq))
  | some ['P'] =>
    match parts[1]?.bind (stripPrefix ['C', 'w', 'd', '=']) with
    | some path =>
      if path.head? = some '/' then ({ sniffer with cwd := some (String.ofList path) }, none)
      else (sniffer, none)
    | none => (sniffer, none)
  | _ => (sniffer, none)

def finish (globalNonce : Option String) (sniffer : OscSniffer) :
    OscSniffer × Option ShellMark :=
  let emptied := { sniffer with buf := [] }
  match fromUtf8 sniffer.buf with
  | none => (emptied, none)
  | some text =>
    let parts := (splitOnce ';' text).getD (text, [])
    if parts.1 = ['7'] then
      match parseOsc7 parts.2 with
      | some path => ({ emptied with cwd := some path }, none)
      | none => (emptied, none)
    else if parts.1 = ['1', '3', '3'] then (emptied, parseOsc133 parts.2)
    else if parts.1 = ['6', '3', '3'] then emptied.parseOsc633 globalNonce parts.2
    else if parts.1 = ['9'] then
      match stripPrefix ['4', ';'] parts.2 with
      | some body =>
        match parseProgress body with
        | some progress => ({ emptied with progress := some progress }, none)
        | none => (emptied, none)
      | none =>
        if parts.2.isEmpty then (emptied, none)
        else ({ emptied with notification := some (String.ofList parts.2) }, none)
    else (emptied, none)

def enter (sniffer : OscSniffer) (scan : Scan) : OscSniffer := { sniffer with scan := scan }

def clear (sniffer : OscSniffer) : OscSniffer := { sniffer with buf := [] }

def push (sniffer : OscSniffer) (byte : UInt8) : OscSniffer :=
  { sniffer with buf := sniffer.buf ++ [byte] }

/-- The end of a sequence, at its terminator. -/
def terminate (globalNonce : Option String) (sniffer : OscSniffer) :
    OscSniffer × Option ShellMark :=
  ((sniffer.finish globalNonce).1.enter .normal, (sniffer.finish globalNonce).2)

/-- One byte, with the mark that ends there. -/
def feedByte (globalNonce : Option String) (sniffer : OscSniffer) (byte : UInt8) :
    OscSniffer × Option ShellMark :=
  match sniffer.scan with
  | .normal => (if byte = Osc.esc then sniffer.enter .esc else sniffer, none)
  | .esc =>
    if byte = bracket then (sniffer.clear.enter .osc, none)
    else if byte = Osc.esc then (sniffer, none)
    else (sniffer.enter .normal, none)
  | .osc =>
    if byte = bel then sniffer.terminate globalNonce
    else if byte = Osc.esc then (sniffer.enter .oscEsc, none)
    else if sniffer.buf.length < maxOsc then (sniffer.push byte, none)
    else (sniffer.clear.enter .normal, none)
  | .oscEsc =>
    if byte = backslash then sniffer.terminate globalNonce
    else if byte = Osc.esc then (sniffer, none)
    -- The sequence is dropped, and with it what this byte may begin.
    else (sniffer.clear.enter .normal, none)

def feedFrom (globalNonce : Option String) (sniffer : OscSniffer) (index : Nat) :
    List UInt8 → OscSniffer × List MarkEvent
  | [] => (sniffer, [])
  | byte :: bytes =>
    let fed := sniffer.feedByte globalNonce byte
    let rest := fed.1.feedFrom globalNonce (index + 1) bytes
    (rest.1, (fed.2.map (MarkEvent.mk (index + 1))).toList ++ rest.2)

/-- A chunk of output. -/
def feed (globalNonce : Option String) (sniffer : OscSniffer) (bytes : List UInt8) :
    OscSniffer × List MarkEvent :=
  sniffer.feedFrom globalNonce 0 bytes

def setCommandNonce (sniffer : OscSniffer) (nonce : Option String) : OscSniffer :=
  { sniffer with nonce := nonce }

/-- The command line that is kept under a number. -/
def commandLine (sniffer : OscSniffer) (id : UInt32) : Option String :=
  (sniffer.commandLines.find? (·.1 = id)).map Prod.snd

def takeCommandLines (sniffer : OscSniffer) : OscSniffer × List (UInt32 × String) :=
  ({ sniffer with commandLines := [] }, sniffer.commandLines)

end OscSniffer

end Oryxis.Terminal.Osc

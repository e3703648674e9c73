/-
This file is the mirror of the remote line editor: it is fed the bytes that go to the shell
and keeps the line they compose, as far as they tell it.

An edit that depends on what only the remote side knows taints the line until it is
submitted or aborted. In a bracketed paste the bytes are content, and the closing sequence
is looked for with the same scan that reads keys.
-/

import Oryxis.Library.Text
import Oryxis.Library.Utf8

namespace Oryxis.Terminal.Input

open Library

/-! ### The mirror -/

abbrev esc : UInt8 := 0x1b
abbrev carriageReturn : UInt8 := 0x0d
abbrev lineFeed : UInt8 := 0x0a

/-- A line that was submitted with Enter. -/
structure SubmittedLine where
  text : List Char
  tainted : Bool
  deriving DecidableEq, Repr

def maxLine : Nat := 16 * 1024

inductive Scan where
  | ground
  | esc
  | csi
  | ss3
  deriving DecidableEq, Repr

structure InputTracker where
  chars : List Char
  cursor : Nat
  tainted : Bool
  scan : Scan
  params : List UInt8
  inPaste : Bool
  pendingUtf8 : List UInt8

namespace InputTracker

def new : InputTracker := ⟨[], 0, false, .ground, [], false, []⟩

def taint (tracker : InputTracker) : InputTracker := { tracker with tainted := true }

def enter (tracker : InputTracker) (scan : Scan) : InputTracker := { tracker with scan := scan }

def moveTo (tracker : InputTracker) (cursor : Nat) : InputTracker :=
  { tracker with cursor := cursor }

def bracket (tracker : InputTracker) (inPaste : Bool) : InputTracker :=
  { tracker with inPaste := inPaste }

/-- A finished control sequence, without its parameters. -/
def taken (tracker : InputTracker) : InputTracker :=
  { tracker with params := [], scan := .ground }

/-- The line, if the mirror can vouch for it and typing goes on at its end. -/
def composingLine (tracker : InputTracker) : Option (List Char) :=
  if tracker.tainted ∨ tracker.inPaste ∨ tracker.pendingUtf8 ≠ [] ∨
      tracker.cursor ≠ tracker.chars.length then none
  else some tracker.chars

def insert (tracker : InputTracker) (c : Char) : InputTracker :=
  if maxLine ≤ tracker.chars.length then tracker.taint
  else
    { tracker with
      chars := tracker.chars.take tracker.cursor ++ c :: tracker.chars.drop tracker.cursor
      cursor := tracker.cursor + 1 }

def insertAll (tracker : InputTracker) (text : List Char) : InputTracker :=
  text.foldl insert tracker

/-- How many bytes the first byte of a letter announces. -/
def need (first : UInt8) : Option Nat :=
  if first >>> 5 = 0b110 then some 2
  else if first >>> 4 = 0b1110 then some 3
  else if first >>> 3 = 0b11110 then some 4
  else none

def clearPending (tracker : InputTracker) : InputTracker := { tracker with pendingUtf8 := [] }

def tryFlushUtf8 (tracker : InputTracker) : InputTracker :=
  match tracker.pendingUtf8.head?.bind need with
  | none => tracker.clearPending
  | some need =>
    if tracker.pendingUtf8.length < need then tracker
    else (tracker.insertAll ((fromUtf8 tracker.pendingUtf8).getD [])).clearPending

def pushPending (tracker : InputTracker) (byte : UInt8) : InputTracker :=
  { tracker with pendingUtf8 := tracker.pendingUtf8 ++ [byte] }

/-- A byte of text. -/
def type (tracker : InputTracker) (byte : UInt8) : InputTracker :=
  if byte < 0x80 then tracker.insert (Char.ofNat byte.toNat)
  else (tracker.pushPending byte).tryFlushUtf8

def clearLine (tracker : InputTracker) : InputTracker :=
  { tracker with chars := [], cursor := 0, tainted := false, pendingUtf8 := [] }

def backspace (tracker : InputTracker) : InputTracker :=
  if 0 < tracker.cursor then
    { tracker with
      chars := tracker.chars.eraseIdx (tracker.cursor - 1), cursor := tracker.cursor - 1 }
  else tracker

def delete (tracker : InputTracker) : InputTracker :=
  if tracker.cursor < tracker.chars.length then
    { tracker with chars := tracker.chars.eraseIdx tracker.cursor }
  else tracker

def left (tracker : InputTracker) : InputTracker := tracker.moveTo (tracker.cursor - 1)

def right (tracker : InputTracker) : InputTracker :=
  tracker.moveTo (min (tracker.cursor + 1) tracker.chars.length)

def killToStart (tracker : InputTracker) : InputTracker :=
  { tracker with chars := tracker.chars.drop tracker.cursor, cursor := 0 }

def killToEnd (tracker : InputTracker) : InputTracker :=
  { tracker with chars := tracker.chars.take tracker.cursor }

/-- Where the word before the cursor begins, and the white space behind it. -/
def wordStart (tracker : InputTracker) : Nat :=
  (((tracker.chars.take tracker.cursor).rdropWhile isWhitespace).rdropWhile
    (fun c => !isWhitespace c)).length

def killWord (tracker : InputTracker) : InputTracker :=
  { tracker with
    chars := tracker.chars.take tracker.wordStart ++ tracker.chars.drop tracker.cursor
    cursor := tracker.wordStart }

/-- Two neighbours change places. -/
def swap (chars : List Char) (index : Nat) : List Char :=
  chars.take index ++ ((chars.drop index).take 2).reverse ++ chars.drop (index + 2)

def transpose (tracker : InputTracker) : InputTracker :=
  if tracker.cursor = tracker.chars.length ∧ 2 ≤ tracker.chars.length then
    { tracker with chars := swap tracker.chars (tracker.chars.length - 2) }
  else if 0 < tracker.cursor ∧ tracker.cursor < tracker.chars.length then
    { tracker with
      chars := swap tracker.chars (tracker.cursor - 1), cursor := tracker.cursor + 1 }
  else tracker

/-- A byte of a paste. -/
def paste (tracker : InputTracker) (byte : UInt8) : InputTracker :=
  if byte = carriageReturn ∨ byte = lineFeed then tracker.insert '\n'
  else if byte = Input.esc then tracker.enter .esc
  else tracker.type byte

/-- A byte that is a key. -/
def key (tracker : InputTracker) (byte : UInt8) : InputTracker × List SubmittedLine :=
  if byte = carriageReturn ∨ byte = lineFeed then
    (tracker.clearLine, [⟨tracker.chars, tracker.tainted⟩])
  else if byte = Input.esc then (tracker.enter .esc, [])
  else if byte = 0x7f ∨ byte = 0x08 then (tracker.backspace, [])
  else if byte = 0x09 then (tracker.taint, [])
  else if byte = 0x01 then (tracker.moveTo 0, [])
  else if byte = 0x05 then (tracker.moveTo tracker.chars.length, [])
  else if byte = 0x02 then (tracker.left, [])
  else if byte = 0x06 then (tracker.right, [])
  else if byte = 0x03 then (tracker.clearLine, [])
  else if byte = 0x04 then (tracker.delete, [])
  else if byte = 0x15 then (tracker.killToStart, [])
  else if byte = 0x0b then (tracker.killToEnd, [])
  else if byte = 0x17 then (tracker.killWord, [])
  else if byte = 0x14 then (tracker.transpose, [])
  else if byte = 0x0c then (tracker, [])
  else if byte ≤ 0x1f then (tracker.taint, [])
  else (tracker.type byte, [])

def ground (tracker : InputTracker) (byte : UInt8) : InputTracker × List SubmittedLine :=
  if tracker.pendingUtf8 ≠ [] ∧ byte &&& 0xc0 = 0x80 then
    ((tracker.pushPending byte).tryFlushUtf8, [])
  else if tracker.inPaste then (tracker.clearPending.paste byte, [])
  else tracker.clearPending.key byte

def escape (tracker : InputTracker) (byte : UInt8) : InputTracker :=
  if byte = 0x5b then { tracker with params := [], scan := .csi }
  else if byte = 0x4f then tracker.enter .ss3
  else if byte = Input.esc then tracker
  else tracker.taint.enter .ground

/-- A finished control sequence outside a paste. -/
def csiKey (tracker : InputTracker) (params : List UInt8) (final : UInt8) : InputTracker :=
  if final = 0x44 ∧ params = [] then tracker.left
  else if final = 0x43 ∧ params = [] then tracker.right
  else if final = 0x48 ∧ params = [] ∨ final = 0x7e ∧ params = [0x31] ∨
      final = 0x7e ∧ params = [0x37] then tracker.moveTo 0
  else if final = 0x46 ∧ params = [] ∨ final = 0x7e ∧ params = [0x34] ∨
      final = 0x7e ∧ params = [0x38] then tracker.moveTo tracker.chars.length
  else if final = 0x7e ∧ params = [0x33] then tracker.delete
  else if final = 0x7e ∧ params = [0x32, 0x30, 0x30] then tracker.bracket true
  else tracker.taint

def csi (tracker : InputTracker) (byte : UInt8) : InputTracker :=
  if 0x20 ≤ byte ∧ byte ≤ 0x3f then
    if tracker.params.length < 16 then { tracker with params := tracker.params ++ [byte] }
    else tracker.taint.enter .ground
  else if 0x40 ≤ byte ∧ byte ≤ 0x7e then
    if tracker.inPaste then
      if byte = 0x7e ∧ tracker.params = [0x32, 0x30, 0x31] then tracker.taken.bracket false
      else tracker.taken.taint
    else tracker.taken.csiKey tracker.params byte
  else tracker.taint.enter .ground

def ss3 (tracker : InputTracker) (byte : UInt8) : InputTracker :=
  let taken := tracker.enter .ground
  if byte = 0x44 then taken.left
  else if byte = 0x43 then taken.right
  else if byte = 0x48 then taken.moveTo 0
  else if byte = 0x46 then taken.moveTo taken.chars.length
  else taken.taint

/-- One byte, with the lines an Enter completes. -/
def feedByte (tracker : InputTracker) (byte : UInt8) : InputTracker × List SubmittedLine :=
  match tracker.scan with
  | .ground => tracker.ground byte
  | .esc => (tracker.escape byte, [])
  | .csi => (tracker.csi byte, [])
  | .ss3 => (tracker.ss3 byte, [])

/-- A chunk of bytes. -/
def feed (tracker : InputTracker) : List UInt8 → InputTracker × List SubmittedLine
  | [] => (tracker, [])
  | byte :: bytes =>
    let fed := tracker.feedByte byte
    let rest := fed.1.feed bytes
    (rest.1, fed.2 ++ rest.2)

end InputTracker

end Oryxis.Terminal.Input

/-
This file is the login script and the runner that answers prompts with it.

A runner is fed the output of a host chunk by chunk and polled with the time. What it
has seen since it last sent something is kept up to a number of bytes, without escape
sequences. The case mapping of the standard library and the engine of regular
expressions are parameters: nothing proved here depends on what they compute.
-/

import Mathlib.Algebra.Ring.Nat
import Oryxis.Library.Text

namespace Oryxis.Login

open Library

def defaultStepTimeoutMs : Nat := 10000

def tailCap : Nat := 256

inductive ExpectPattern where
  | suffix (text : List Char)
  | regex (pattern : List Char)

inductive NamedKey where
  | enter
  | tab
  | escape
  | space
  | ctrlC
  | ctrlD
  deriving DecidableEq, Repr

inductive SecretRef where
  | connectionPassword
  | targetPassword
  | identity (id : Nat)
  | totp
  deriving DecidableEq, Repr

inductive SendPayload where
  | text (text : List Char)
  | secret (secret : SecretRef)
  | key (key : NamedKey)
  | nothing
  deriving DecidableEq, Repr

/-- One step of a script; without a pattern it sends at once. -/
structure LoginStep where
  expect : Option ExpectPattern
  send : SendPayload
  timeoutMs : Nat
  optional : Bool

inductive ScriptError where
  | pattern (step : Nat)
  | empty

inductive RunnerAction where
  | send (index : Nat) (payload : SendPayload)
  | timeout (index : Nat)
  | finished
  deriving DecidableEq, Repr

/-! ### Text -/

/-- What the runner needs of the standard library and of the engine of regular expressions: the
spans of a text that an expression matches, and the whole of a text in lower case. -/
structure Matching (Regex : Type) where
  toLowercase : List Char → List Char
  compile : List Char → Option Regex
  matchesAt : Regex → List Char → Nat → Nat → Bool

/-- Where the reader of escape sequences stands. -/
inductive Scan where
  | text
  | escape
  | csi
  | osc
  deriving DecidableEq, Repr

def stripFrom : Scan → List UInt8 → List Char
  | _, [] => []
  | .text, byte :: rest =>
    if byte = 0x1b then stripFrom .escape rest
    else if byte = 0x0d ∨ byte = 0x0a ∨ byte = 0x09 then Char.ofNat byte.toNat :: stripFrom .text rest
    else if byte < 0x20 ∨ byte = 0x7f then stripFrom .text rest
    else Char.ofNat byte.toNat :: stripFrom .text rest
  | .escape, byte :: rest =>
    if byte = 0x5b then stripFrom .csi rest
    else if byte = 0x5d then stripFrom .osc rest
    else stripFrom .text rest
  | .csi, byte :: rest =>
    if 0x40 ≤ byte ∧ byte ≤ 0x7e then stripFrom .text rest else stripFrom .csi rest
  | .osc, byte :: rest =>
    if byte = 0x07 then stripFrom .text rest
    else
      match rest with
      | [] => []
      | next :: others =>
        if byte = 0x1b ∧ next = 0x5c then stripFrom .text others else stripFrom .osc (next :: others)

/-- A chunk of output without its escape sequences, each other byte read as a character. -/
def stripAnsiLossy (output : List UInt8) : List Char := stripFrom .text output

def utf8Len (text : List Char) : Nat := (text.map Char.utf8Size).sum

/-- The last characters that fit the cap. -/
def trimTail : List Char → List Char
  | [] => []
  | c :: rest => if utf8Len (c :: rest) ≤ tailCap then c :: rest else trimTail rest

/-! ### The runner -/

variable {Regex : Type}

inductive CompiledPattern (Regex : Type) where
  | suffix (text : List Char)
  | regex (regex : Regex)

structure CompiledStep (Regex : Type) where
  expect : Option (CompiledPattern Regex)
  send : SendPayload
  timeout : Nat
  optional : Bool

structure ScriptRunner (Regex : Type) where
  steps : List (CompiledStep Regex)
  idx : Nat
  tail : List Char
  deadline : Nat
  stepDeadline : Nat
  done : Bool

variable (matching : Matching Regex)

def CompiledPattern.compile : ExpectPattern → Option (CompiledPattern Regex)
  | .suffix text => some (.suffix (matching.toLowercase (trimEnd text)))
  | .regex pattern => (matching.compile pattern).map .regex

def Matching.isMatch (regex : Regex) (text : List Char) : Bool :=
  (List.range (text.length + 1)).any fun last =>
    (List.range (last + 1)).any fun first => matching.matchesAt regex text first last

def CompiledPattern.matches (tail : List Char) : CompiledPattern Regex → Bool
  | .suffix text => text.isSuffixOf (matching.toLowercase tail)
  | .regex compiled => matching.isMatch compiled tail

def compileStep (step : LoginStep) : Option (CompiledStep Regex) :=
  let timeout := if step.timeoutMs = 0 then defaultStepTimeoutMs else step.timeoutMs
  match step.expect with
  | none => some ⟨none, step.send, timeout, step.optional⟩
  | some pattern => (CompiledPattern.compile matching pattern).map fun compiled =>
      ⟨some compiled, step.send, timeout, step.optional⟩

/-- The steps from the `index`th on. -/
def compileSteps : Nat → List LoginStep → Except ScriptError (List (CompiledStep Regex))
  | _, [] => .ok []
  | index, step :: rest =>
    match compileStep matching step with
    | none => .error (.pattern index)
    | some compiled => (compileSteps (index + 1) rest).map (compiled :: ·)

namespace ScriptRunner

def new (steps : List LoginStep) (window now : Nat) : Except ScriptError (ScriptRunner Regex) :=
  (compileSteps matching 0 steps).map fun compiled =>
    { steps := compiled
      idx := 0
      tail := []
      deadline := now + window
      stepDeadline := now + (compiled.head?.map CompiledStep.timeout).getD 0
      done := compiled.isEmpty }

def feed (output : List UInt8) (runner : ScriptRunner Regex) : ScriptRunner Regex :=
  if runner.done then runner
  else { runner with tail := trimTail (runner.tail ++ stripAnsiLossy output) }

/-- The deadline of the step at `index`, where it is armed now. -/
def deadlineAt (runner : ScriptRunner Regex) (index now : Nat) : Nat :=
  (runner.steps[index]?.map fun step => now + step.timeout).getD runner.stepDeadline

def advanceTo (next now : Nat) (runner : ScriptRunner Regex) : ScriptRunner Regex :=
  { runner with idx := next, tail := [], stepDeadline := runner.deadlineAt next now }

/-- An optional step whose time is up; what was seen is kept for the next one. -/
def skip (now : Nat) (runner : ScriptRunner Regex) : ScriptRunner Regex :=
  { runner with idx := runner.idx + 1, stepDeadline := runner.deadlineAt (runner.idx + 1) now }

/-- The first step that is hit, among those up to the first that is not optional. -/
def hitFrom (tail : List Char) : Nat → List (CompiledStep Regex) → Option (Nat × SendPayload)
  | _, [] => none
  | index, step :: rest =>
    if step.expect.all (CompiledPattern.matches matching tail) then some (index, step.send)
    else if step.optional then hitFrom tail (index + 1) rest
    else none

/-- What is sent for the output seen so far. -/
def fire (now : Nat) (runner : ScriptRunner Regex) : Option RunnerAction × ScriptRunner Regex :=
  match hitFrom matching (trimEnd runner.tail) runner.idx (runner.steps.drop runner.idx) with
  | some (index, payload) => (some (.send index payload), runner.advanceTo (index + 1) now)
  | none => (none, runner)

def poll (now : Nat) (runner : ScriptRunner Regex) : Option RunnerAction × ScriptRunner Regex :=
  if runner.done then (none, runner)
  else
    match _armed : runner.steps[runner.idx]? with
    | none => (some .finished, { runner with done := true })
    | some step =>
      if runner.deadline ≤ now then (some (.timeout runner.idx), { runner with done := true })
      else if runner.stepDeadline ≤ now then
        if step.optional then poll now (runner.skip now)
        else (some (.timeout runner.idx), { runner with done := true })
      else fire matching now runner
termination_by runner.steps.length - runner.idx
decreasing_by
  have within := (List.getElem?_eq_some_iff.mp _armed).1
  show runner.steps.length - (runner.idx + 1) < runner.steps.length - runner.idx
  omega

end ScriptRunner

end Oryxis.Login

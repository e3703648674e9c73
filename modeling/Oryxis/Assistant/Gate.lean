/-
This file is the gate in front of the commands an assistant proposes.

A command whose name the user has granted always runs unasked, up to a cap on how many
run in a row; every other one that runs unasked has been called safe by the model, is
none of the commands that are known to destroy, has not run since the user last took
control, and goes before a judge first. The gate is a function of flags, and the two
lemmas at the end say what each of its two ways past the user asks for.
-/

import Mathlib.Data.List.Infix
import Oryxis.Library.Text

namespace Oryxis.Assistant

open Library

/-! ### Reading a command -/

/-- The name of a command, as far as the always-run list goes. -/
def firstToken (command : String) : String :=
  String.ofList ((command.toList.dropWhile isWhitespace).takeWhile fun c => !isWhitespace c)

/-- More than one simple command: control operators, redirection, substitution or a newline. -/
def shellChaining : List Char → Bool
  | [] => false
  | c :: rest =>
    [';', '|', '&', '<', '>', '\x60', '\n', '\r'].contains c ||
      (c == '$' && (rest.head? == some '(' || rest.head? == some '\x7b')) || shellChaining rest

def hasShellChaining (command : String) : Bool := shellChaining command.toList

def contains (text : List Char) (pattern : String) : Bool :=
  decide (pattern.toList <:+: text)

/-- What parts a command into the names in it. -/
def isSeparator (c : Char) : Bool := isWhitespace c || [';', '|', '&', '(', ')'].contains c

def isObviouslyDestructive (command : String) : Bool :=
  let c := command.toList.map Char.toLower
  let tokens := ((c.splitOnP isSeparator).filter (· ≠ [])).map String.ofList
  let has := contains c
  let recursive := has " -r" || has "--recursive" || has " -rf" || has " -fr"
  let force := has " -f" || has "--force" || has " -rf" || has " -fr"
  tokens.any (["reboot", "shutdown", "poweroff", "halt"].contains ·) ||
    (has "rm " && recursive && force) ||
    has "--no-preserve-root" ||
    tokens.any (fun token =>
      ["wipefs", "fdisk", "parted", "mkswap", "shred"].contains token ||
        "mkfs".toList.isPrefixOf token.toList) ||
    (has "dd " && has "of=/dev/") ||
    ["> /dev/sd", "> /dev/nvme", "> /dev/disk", "> /dev/vd"].any has ||
    has ":()\x7b" || has ":|:&" ||
    has "drop database" || has "drop table" || has "truncate table"

example : isObviouslyDestructive "sudo RM -r --force /srv" = true := by decide +kernel

example : isObviouslyDestructive "rm -i scratch.log" = false := by decide +kernel

/-! ### The gate -/

inductive ChatMode
  | auto
  | ask
  | plan
  deriving DecidableEq, Repr

/-- The most commands that run unasked in a row. -/
def chatAutoRunStreakMax : Nat := 12

structure ToolGateInput where
  mode : ChatMode
  allowed : Bool
  hasChaining : Bool
  riskSafe : Bool
  obviouslyDestructive : Bool
  streakExceeded : Bool
  alreadyAutoRan : Bool

inductive ToolGate
  | autoExec
  | confirm
  | judge
  | prompt

def classifyToolGate (i : ToolGateInput) : ToolGate :=
  if i.allowed && !i.hasChaining then
    if i.streakExceeded then .confirm else .autoExec
  else
    match i.mode with
    | .ask => .prompt
    | .plan =>
      if i.riskSafe && !i.obviouslyDestructive && !i.streakExceeded && !i.alreadyAutoRan then .judge
      else .prompt
    | .auto =>
      if i.riskSafe && i.obviouslyDestructive then .confirm
      else if i.riskSafe && (i.streakExceeded || i.alreadyAutoRan) then .confirm
      else if i.riskSafe then .judge
      else .prompt

/-- A command runs at once only under a granted name, alone and below the cap. -/
theorem allowed_of_autoExec {i : ToolGateInput} (runs : classifyToolGate i = .autoExec) :
    i.allowed = true ∧ i.hasChaining = false ∧ i.streakExceeded = false := by
  unfold classifyToolGate at runs
  split at runs
  · rename_i simple
    rw [Bool.and_eq_true, Bool.not_eq_true'] at simple
    split at runs
    · cases runs
    · rename_i below
      exact ⟨simple.1, simple.2, Bool.eq_false_iff.mpr below⟩
  · split at runs
    · cases runs
    · split at runs <;> cases runs
    · split at runs
      · cases runs
      · split at runs
        · cases runs
        · split at runs <;> cases runs

/-- What goes before the judge: not in Ask mode, under no granted name, and nothing but what the
model called safe, that destroys nothing, below the cap and not run since. -/
structure ToolGateInput.Judged (i : ToolGateInput) : Prop where
  notAsk : i.mode ≠ .ask
  notSimple : (i.allowed && !i.hasChaining) = false
  safe : i.riskSafe = true
  harmless : i.obviouslyDestructive = false
  below : i.streakExceeded = false
  first : i.alreadyAutoRan = false

theorem judged_of_judge {i : ToolGateInput} (judged : classifyToolGate i = .judge) : i.Judged := by
  unfold classifyToolGate at judged
  split at judged
  · split at judged <;> cases judged
  · rename_i notSimple
    rw [Bool.not_eq_true] at notSimple
    split at judged
    · cases judged
    · rename_i isPlan
      split at judged
      · rename_i passes
        simp only [Bool.and_eq_true, Bool.not_eq_true'] at passes
        obtain ⟨⟨⟨safe, harmless⟩, below⟩, first⟩ := passes
        exact ⟨by rw [isPlan]; nofun, notSimple, safe, harmless, below, first⟩
      · cases judged
    · rename_i isAuto
      split at judged
      · cases judged
      · rename_i harmless
        split at judged
        · cases judged
        · rename_i fresh
          split at judged
          · rename_i safe
            rw [safe, Bool.true_and, Bool.not_eq_true] at harmless fresh
            obtain ⟨below, first⟩ := Bool.or_eq_false_iff.mp fresh
            exact ⟨by rw [isAuto]; nofun, notSimple, safe, harmless, below, first⟩
          · cases judged

end Oryxis.Assistant

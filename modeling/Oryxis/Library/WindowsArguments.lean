/-
This file splits a Windows command line into arguments by the rules of the C runtime: blanks
separate arguments outside quotes, a backslash is literal unless a run of them stands before a
double quote, where two make one and an odd one makes the quote literal, and a doubled quote inside
quotes is a literal one. A text without a double quote is given back from between two quotes
exactly if it does not end in a backslash.
-/

import Mathlib.Data.List.Basic
import Mathlib.Algebra.Ring.Nat

namespace Oryxis.Library.WindowsArguments

open List

/-- The arguments of a line, inside or outside quotes, behind so many backslashes, and with what
there is of an argument that was begun. -/
def arguments (quoted : Bool) (slashes : Nat) (begun : Option (List Char)) :
    List Char → List (List Char)
  | [] =>
    if slashes = 0 then begun.toList
    else [begun.getD [] ++ List.replicate slashes '\\']
  | '\\' :: rest => arguments quoted (slashes + 1) begun rest
  | '"' :: '"' :: rest =>
    if slashes % 2 = 1 then
      arguments quoted 0 (some (begun.getD [] ++ List.replicate (slashes / 2) '\\' ++ ['"']))
        ('"' :: rest)
    else if quoted then
      arguments quoted 0 (some (begun.getD [] ++ List.replicate (slashes / 2) '\\' ++ ['"'])) rest
    else
      arguments true 0 (some (begun.getD [] ++ List.replicate (slashes / 2) '\\')) ('"' :: rest)
  | '"' :: rest =>
    if slashes % 2 = 1 then
      arguments quoted 0 (some (begun.getD [] ++ List.replicate (slashes / 2) '\\' ++ ['"'])) rest
    else
      arguments (!quoted) 0 (some (begun.getD [] ++ List.replicate (slashes / 2) '\\')) rest
  | letter :: rest =>
    if ¬quoted ∧ (letter = ' ' ∨ letter = '\t') then
      (if slashes = 0 then begun.toList else [begun.getD [] ++ List.replicate slashes '\\'])
        ++ arguments false 0 none rest
    else
      arguments quoted 0 (some (begun.getD [] ++ List.replicate slashes '\\' ++ [letter])) rest

/-- The arguments of a command line. -/
def commandLine (line : List Char) : List (List Char) := arguments false 0 none line

theorem arguments_slash (quoted : Bool) (slashes : Nat) (begun : Option (List Char))
    (rest : List Char) :
    arguments quoted slashes begun ('\\' :: rest) = arguments quoted (slashes + 1) begun rest := by
  rw [arguments]

theorem arguments_letter {letter : Char} (notSlash : letter ≠ '\\') (notQuote : letter ≠ '"')
    (slashes : Nat) (begun : List Char) (rest : List Char) :
    arguments true slashes (some begun) (letter :: rest)
      = arguments true 0 (some (begun ++ List.replicate slashes '\\' ++ [letter])) rest := by
  rw [arguments]
  · rfl
  · exact notSlash
  · exact fun _ same => absurd same notQuote
  · exact notQuote

theorem arguments_end (slashes : Nat) (begun : List Char) :
    arguments true slashes (some begun) ['"']
      = [begun ++ List.replicate (slashes / 2) '\\' ++ if slashes % 2 = 1 then ['"'] else []] := by
  rw [arguments]
  · by_cases odd : slashes % 2 = 1
    · rw [if_pos odd, if_pos odd]
      rfl
    · rw [if_neg odd, if_neg odd, append_nil]
      rfl
  · exact fun _ impossible => absurd impossible (cons_ne_nil _ _).symm

/-- What stands before a closing quote is the argument exactly if it does not end in a
backslash. -/
theorem arguments_closed {text : List Char} (quoteless : '"' ∉ text) :
    ∀ (slashes : Nat) (begun : List Char),
      arguments true slashes (some begun) (text ++ ['"'])
          = [begun ++ (List.replicate slashes '\\' ++ text)] ↔
        (List.replicate slashes '\\' ++ text).getLast? ≠ some '\\' := by
  induction text with
  | nil =>
    intro slashes begun
    rw [nil_append, arguments_end, append_nil]
    cases slashes with
    | zero => exact iff_of_true (by simp) (by simp)
    | succ slashes =>
      refine iff_of_false ?_ ?_
      · intro same
        rw [append_assoc] at same
        have tails := append_cancel_left (singleton_inj.mp same)
        by_cases odd : (slashes + 1) % 2 = 1
        · rw [if_pos odd] at tails
          have among : '"' ∈ List.replicate (slashes + 1) '\\' :=
            tails ▸ mem_append_right _ (mem_singleton_self _)
          exact absurd (eq_of_mem_replicate among) (by decide)
        · rw [if_neg odd] at tails
          have lengths := congrArg List.length tails
          rw [append_nil, length_replicate, length_replicate] at lengths
          omega
      · rw [replicate_succ', getLast?_concat]
        exact fun none => none rfl
  | cons letter rest ih =>
    intro slashes begun
    have later : '"' ∉ rest := fun among => quoteless (mem_cons_of_mem _ among)
    have notQuote : letter ≠ '"' := fun same => quoteless (same ▸ mem_cons_self)
    rw [cons_append]
    by_cases slash : letter = '\\'
    · have shifted : List.replicate slashes '\\' ++ letter :: rest
          = List.replicate (slashes + 1) '\\' ++ rest := by
        rw [replicate_succ', append_assoc, slash]
        rfl
      rw [shifted, slash, arguments_slash]
      exact ih later (slashes + 1) begun
    · have through := ih later 0 (begun ++ List.replicate slashes '\\' ++ [letter])
      have joined : begun ++ (List.replicate slashes '\\' ++ letter :: rest)
          = begun ++ List.replicate slashes '\\' ++ [letter] ++ (List.replicate 0 '\\' ++ rest) := by
        rw [replicate_zero, nil_append, append_assoc, append_assoc]
        rfl
      have last : (List.replicate slashes '\\' ++ letter :: rest).getLast? = some '\\' ↔
          (List.replicate 0 '\\' ++ rest).getLast? = some '\\' := by
        rw [replicate_zero, nil_append, getLast?_append_of_ne_nil _
          (cons_ne_nil _ _)]
        cases rest with
        | nil =>
          refine iff_of_false ?_ (by simp)
          rw [getLast?_singleton]
          exact fun same => slash (Option.some.inj same)
        | cons second others => rw [getLast?_cons_cons]
      rw [arguments_letter slash notQuote, joined, Ne, last]
      exact through

/-- A text without a double quote is given back from between two quotes exactly if it does not end
in a backslash. -/
theorem commandLine_quoted {text : List Char} (quoteless : '"' ∉ text) :
    commandLine ('"' :: (text ++ ['"'])) = [text] ↔ text.getLast? ≠ some '\\' := by
  have opened : commandLine ('"' :: (text ++ ['"']))
      = arguments true 0 (some []) (text ++ ['"']) := by
    rw [commandLine]
    cases text with
    | nil => rfl
    | cons letter rest =>
      have notQuote : letter ≠ '"' := fun same => quoteless (same ▸ mem_cons_self)
      rw [cons_append, arguments]
      · rfl
      · intro other same
        exact notQuote (cons.inj same).1
  rw [opened]
  exact arguments_closed quoteless 0 []

end Oryxis.Library.WindowsArguments

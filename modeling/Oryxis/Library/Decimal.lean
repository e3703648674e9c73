/-
This file is the part of a standard library that reads and writes numbers in decimal. What
was written is read back.
-/

import Mathlib.Algebra.Ring.Nat
import Mathlib.Data.List.Basic

namespace Oryxis.Library

/-- An unsigned number below a bound: digits, with a plus sign in front or not. -/
def parseUnsigned (bound : Nat) (text : List Char) : Option Nat :=
  let digits := if text.head? = some '+' then text.tail else text
  if digits.isEmpty || !digits.all Char.isDigit then none
  else
    let value := Nat.ofDigitChars 10 digits 0
    if value < bound then some value else none

/-- A number with zeros in front where it is shorter than the width. -/
def zeroPadded (width value : Nat) : List Char := (Nat.toDigits 10 value).leftpad width '0'

variable {value : Nat} {letter : Char}

theorem isDigit_of_mem_toDigits (member : letter ∈ Nat.toDigits 10 value) : letter.isDigit = true :=
  Nat.isDigit_of_mem_toDigits (by decide) (by decide) member

variable {bound : Nat}

theorem parseUnsigned_toDigits (fits : value < bound) :
    parseUnsigned bound (Nat.toDigits 10 value) = some value := by
  have noSign : (Nat.toDigits 10 value).head? ≠ some '+' := by
    intro sign
    have digit := isDigit_of_mem_toDigits (List.mem_of_head? sign)
    exact absurd digit (by decide)
  have nonempty : (Nat.toDigits 10 value).isEmpty = false :=
    List.isEmpty_eq_false_iff.mpr Nat.toDigits_ne_nil
  have digits : (Nat.toDigits 10 value).all Char.isDigit = true :=
    List.all_eq_true.mpr fun _ => isDigit_of_mem_toDigits
  rw [parseUnsigned]
  simp only [if_neg noSign, nonempty, digits, Nat.ofDigitChars_ten_toDigits, fits]
  rfl

theorem parseUnsigned_lt {text : List Char} (parsed : parseUnsigned bound text = some value) :
    value < bound := by
  simp only [parseUnsigned] at parsed
  generalize (if text.head? = some '+' then text.tail else text) = digits at parsed
  split_ifs at parsed with malformed fits
  cases parsed
  exact fits

variable {width : Nat}

theorem length_zeroPadded (positive : 0 < width) (fits : value < 10 ^ width) :
    (zeroPadded width value).length = width := by
  have short := (Nat.length_toDigits_le_iff (by decide) positive).mpr fits
  rw [zeroPadded, List.length_leftpad]
  exact Nat.max_eq_left short

theorem isDigit_of_mem_zeroPadded (member : letter ∈ zeroPadded width value) :
    letter.isDigit = true := by
  rcases List.mem_append.mp member with zero | digit
  · rw [List.eq_of_mem_replicate zero]
    decide
  · exact isDigit_of_mem_toDigits digit

theorem ofDigitChars_zeroPadded (width value : Nat) :
    Nat.ofDigitChars 10 (zeroPadded width value) 0 = value := by
  rw [zeroPadded, List.leftpad, Nat.ofDigitChars_append, Nat.ofDigitChars_replicate_zero,
    Nat.mul_zero, Nat.ofDigitChars_ten_toDigits]

end Oryxis.Library

/-
This file is the part of a standard library that reads IPv6 addresses in text, as far as
what it accepts goes: groups of hexadecimal digits with colons between them, one run of
groups left out, and the last two groups as an IPv4 address.

A reader takes what it accepts from the front and gives the rest.
-/

import Mathlib.Algebra.Ring.Nat
import Mathlib.Data.List.TakeWhile

namespace Oryxis.Library

open List

/-! ### Readers -/

def readGivenChar (given : Char) : List Char → Option (List Char)
  | [] => none
  | letter :: rest => if letter = given then some rest else none

/-- A separator in front of all but the first. -/
def readSeparator (separator : Char) (index : Nat) (reader : List Char → Option (List Char))
    (text : List Char) : Option (List Char) :=
  if 0 < index then (readGivenChar separator text).bind reader else reader text

def isHexDigit (c : Char) : Bool :=
  c.isDigit || ('a' ≤ c && c ≤ 'f') || ('A' ≤ c && c ≤ 'F')

/-- One to four hexadecimal digits. -/
def readGroup (text : List Char) : Option (List Char) :=
  let digits := text.takeWhile isHexDigit
  if 4 < digits.length ∨ digits = [] then none else some (text.dropWhile isHexDigit)

/-- A number of at most 255 in one to three digits, without a zero in front. -/
def readOctet (text : List Char) : Option (List Char) :=
  let digits := text.takeWhile Char.isDigit
  if 3 < digits.length ∨ digits = [] then none
  else if digits.head? = some '0' ∧ 1 < digits.length then none
  else if 256 ≤ Nat.ofDigitChars 10 digits 0 then none
  else some (text.dropWhile Char.isDigit)

def readIpv4Addr (text : List Char) : Option (List Char) :=
  (List.range 4).foldlM (fun rest index => readSeparator '.' index readOctet rest) text

/-- Groups up to a limit, of which `left` are left: how many were read, whether they end with an
IPv4 address, and the rest. -/
def readGroups : (left index : Nat) → List Char → Nat × Bool × List Char
  | 0, index, text => (index, false, text)
  | left + 1, index, text =>
    -- The address takes two groups.
    match if 0 < left then readSeparator ':' index readIpv4Addr text else none with
    | some rest => (index + 2, true, rest)
    | none =>
      match readSeparator ':' index readGroup text with
      | some rest => readGroups left (index + 1) rest
      | none => (index, false, text)

def readIpv6Addr (text : List Char) : Option (List Char) :=
  let (headSize, headIpv4, rest) := readGroups 8 0 text
  if headSize = 8 then some rest
  else if headIpv4 then none
  else do
    let rest ← readGivenChar ':' rest
    let rest ← readGivenChar ':' rest
    let (_, _, rest) := readGroups (8 - (headSize + 1)) 0 rest
    return rest

/-- Whether a text is an address as a whole. -/
def isIpv6Addr (text : List Char) : Bool := readIpv6Addr text = some []

example : isIpv6Addr "fe80::1".toList = true := by decide

example : isIpv6Addr "1:2:3:4:5:6:7::8".toList = false := by decide

/-! ### What a reader takes -/

/-- What is taken from the front is of one kind of letters. -/
def Takes (kind : Char → Bool) (text rest : List Char) : Prop :=
  ∃ taken, text = taken ++ rest ∧ ∀ c ∈ taken, kind c = true

namespace Takes

variable {kind other : Char → Bool} {text between rest : List Char}

theorem refl (text : List Char) : Takes kind text text := ⟨[], rfl, by simp⟩

theorem trans (first : Takes kind text between) (second : Takes kind between rest) :
    Takes kind text rest := by
  obtain ⟨front, rfl, frontKind⟩ := first
  obtain ⟨behind, rfl, behindKind⟩ := second
  refine ⟨front ++ behind, (append_assoc _ _ _).symm, fun c member => ?_⟩
  exact (mem_append.mp member).elim (frontKind c) (behindKind c)

theorem mono (takes : Takes kind text rest) (weaker : ∀ c, kind c = true → other c = true) :
    Takes other text rest := by
  obtain ⟨taken, whole, all⟩ := takes
  exact ⟨taken, whole, fun c member => weaker c (all c member)⟩

theorem of_span (kind : Char → Bool) (text : List Char) :
    Takes kind text (text.dropWhile kind) :=
  ⟨text.takeWhile kind, takeWhile_append_dropWhile.symm, fun _ => mem_takeWhile_imp⟩

theorem of_given {given : Char} (isKind : kind given = true)
    (read : readGivenChar given text = some rest) : Takes kind text rest := by
  cases text with
  | nil => cases read
  | cons letter text =>
    rw [readGivenChar] at read
    split_ifs at read with same
    cases read
    refine ⟨[given], congrArg (· :: rest) same, fun c member => ?_⟩
    rw [mem_singleton.mp member]
    exact isKind

theorem of_separator {separator : Char} {index : Nat} {reader : List Char → Option (List Char)}
    (isKind : kind separator = true)
    (reads : ∀ text rest, reader text = some rest → Takes kind text rest)
    (read : readSeparator separator index reader text = some rest) : Takes kind text rest := by
  rw [readSeparator] at read
  split_ifs at read with later
  · obtain ⟨between, given, inner⟩ := Option.bind_eq_some_iff.mp read
    exact (of_given isKind given).trans (reads _ _ inner)
  · exact reads _ _ read

end Takes

/-- The letters of an address. -/
def isAddressLetter (c : Char) : Bool := isHexDigit c || c = ':' || c = '.'

theorem isAddressLetter_of_isDigit {c : Char} (digit : c.isDigit = true) :
    isAddressLetter c = true := by
  rw [isAddressLetter, isHexDigit, digit]
  rfl

theorem takes_of_readGroup {text rest : List Char} (read : readGroup text = some rest) :
    Takes isAddressLetter text rest := by
  rw [readGroup] at read
  split_ifs at read with malformed
  cases read
  refine (Takes.of_span isHexDigit text).mono fun c digit => ?_
  rw [isAddressLetter, digit]
  rfl

theorem takes_of_readOctet {text rest : List Char} (read : readOctet text = some rest) :
    Takes isAddressLetter text rest := by
  rw [readOctet] at read
  split_ifs at read with malformed zero large
  cases read
  exact (Takes.of_span Char.isDigit text).mono fun c => isAddressLetter_of_isDigit

theorem takes_of_readIpv4Addr {text rest : List Char} (read : readIpv4Addr text = some rest) :
    Takes isAddressLetter text rest := by
  rw [readIpv4Addr] at read
  generalize List.range 4 = indices at read
  induction indices generalizing text with
  | nil =>
    cases read
    exact Takes.refl _
  | cons index indices inductionHypothesis =>
    rw [foldlM_cons] at read
    obtain ⟨between, first, others⟩ := Option.bind_eq_some_iff.mp read
    have one : Takes isAddressLetter text between :=
      Takes.of_separator (by decide) (fun _ _ => takes_of_readOctet) first
    exact one.trans (inductionHypothesis others)

theorem takes_of_readGroups (left index : Nat) (text : List Char) :
    Takes isAddressLetter text (readGroups left index text).2.2 := by
  induction left generalizing index text with
  | zero => exact Takes.refl _
  | succ left inductionHypothesis =>
    rw [readGroups]
    split
    · rename_i rest read
      split_ifs at read with fits
      exact Takes.of_separator (by decide) (fun _ _ => takes_of_readIpv4Addr) read
    · split
      · rename_i rest read
        have one : Takes isAddressLetter text rest :=
          Takes.of_separator (by decide) (fun _ _ => takes_of_readGroup) read
        exact one.trans (inductionHypothesis (index + 1) rest)
      · exact Takes.refl _

theorem mem_of_readGivenChar {given : Char} {text rest : List Char}
    (read : readGivenChar given text = some rest) : given ∈ text := by
  cases text with
  | nil => cases read
  | cons letter text =>
    rw [readGivenChar] at read
    split_ifs at read with same
    exact same ▸ mem_cons_self

/-- What stands after the first in a row begins with the separator. -/
theorem mem_of_readSeparator {separator : Char} {index : Nat}
    {reader : List Char → Option (List Char)} {text rest : List Char} (later : 0 < index)
    (read : readSeparator separator index reader text = some rest) : separator ∈ text := by
  rw [readSeparator, if_pos later] at read
  obtain ⟨between, given, -⟩ := Option.bind_eq_some_iff.mp read
  exact mem_of_readGivenChar given

theorem colon_mem_of_readGroups {left index : Nat} {text : List Char} (later : 0 < index)
    (more : (readGroups left index text).1 ≠ index) : ':' ∈ text := by
  cases left with
  | zero => exact absurd rfl more
  | succ left =>
    rw [readGroups] at more
    split at more
    · rename_i rest read
      split_ifs at read with fits
      exact mem_of_readSeparator later read
    · split at more
      · rename_i rest read
        exact mem_of_readSeparator later read
      · exact absurd rfl more

/-- Three groups have a colon among them. -/
theorem colon_mem_of_readGroups_first {left : Nat} {text : List Char}
    (more : 2 < (readGroups left 0 text).1) : ':' ∈ text := by
  cases left with
  | zero => cases more
  | succ left =>
    rw [readGroups] at more
    split at more
    · exact absurd more (Nat.lt_irrefl 2)
    · split at more
      · rename_i rest read
        rw [readSeparator, if_neg (Nat.lt_irrefl 0)] at read
        obtain ⟨taken, rfl, -⟩ := takes_of_readGroup read
        exact mem_append_right _
          (colon_mem_of_readGroups Nat.one_pos (Nat.ne_of_gt (Nat.lt_of_succ_lt more)))
      · exact absurd more (Nat.not_lt_zero 2)

/-- An address has a colon, and digits, colons and dots alone. -/
theorem isIpv6Addr_letters {text : List Char} (address : isIpv6Addr text = true) :
    (∀ c ∈ text, isAddressLetter c = true) ∧ ':' ∈ text := by
  have read : readIpv6Addr text = some [] := of_decide_eq_true address
  have all {rest : List Char} (takes : Takes isAddressLetter text rest) (whole : rest = []) :
      ∀ c ∈ text, isAddressLetter c = true := by
    obtain ⟨taken, rfl, kind⟩ := takes
    rw [whole, append_nil]
    exact kind
  have head := takes_of_readGroups 8 0 text
  have first : 2 < (readGroups 8 0 text).1 → ':' ∈ text := colon_mem_of_readGroups_first
  rw [readIpv6Addr] at read
  generalize readGroups 8 0 text = groups at read head first
  obtain ⟨headSize, headIpv4, rest⟩ := groups
  dsimp only at read head first
  split_ifs at read with eight ipv4
  · exact ⟨all head (Option.some.inj read), first (by omega)⟩
  · obtain ⟨second, given, read⟩ := Option.bind_eq_some_iff.mp read
    obtain ⟨third, given', read⟩ := Option.bind_eq_some_iff.mp read
    have before : Takes isAddressLetter text third :=
      (head.trans (Takes.of_given (by decide) given)).trans (Takes.of_given (by decide) given')
    have behind := takes_of_readGroups (8 - (headSize + 1)) 0 third
    refine ⟨all (before.trans behind) (Option.some.inj read), ?_⟩
    obtain ⟨taken, rfl, -⟩ := head
    exact mem_append_right _ (mem_of_readGivenChar given)

end Oryxis.Library

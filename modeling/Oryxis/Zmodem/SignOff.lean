/-
This file is the end of a download: the sign-off of the other side, which is not for the
terminal, and what follows it, which is.

The other side signs off with two letters, behind the rest of its last frame, and may not
sign off at all. Either letter is swallowed as it comes, before it is known whether the
other follows. So where a single one is the shell's own, it is lost; in every other case,
however the bytes are cut, the terminal gets all that follows the residue and the
sign-off.
-/

import Mathlib.Data.List.Basic

namespace Oryxis.Zmodem

open List

/-! ### The filter -/

abbrev letterO : UInt8 := 79

/-- Flow control and line ends, with or without their high bit. -/
def isResidue (byte : UInt8) : Bool :=
  byte ∈ ([0x11, 0x13, 13, 10, 0x8d, 0x8a, 0x91] : List UInt8)

/-- What has been made of some bytes: nothing yet but so many letters of the sign-off, or the
terminal's bytes from here on. -/
inductive Heard where
  | more (seen : Nat)
  | past (rest : List UInt8)

def hear (seen : Nat) : List UInt8 → Heard
  | [] => .more seen
  | byte :: rest =>
    if byte = letterO ∧ seen < 2 then hear (seen + 1) rest
    else if isResidue byte ∧ seen = 0 then hear seen rest
    else .past (byte :: rest)

/-- What is for the terminal, and the chunks that are left on the wire. -/
structure Trailing where
  bytes : List UInt8
  wireIn : List (List UInt8)

/-- As many chunks as are queued by now are swept up. -/
def drainBuffered (queued : Nat) (wireIn : List (List UInt8)) (head : List UInt8) : Trailing :=
  ⟨head ++ (wireIn.take queued).flatten, wireIn.drop queued⟩

def swallowChunks (queued seen : Nat) : List (List UInt8) → Trailing
  | [] => ⟨[], []⟩
  | chunk :: wireIn =>
    match hear seen chunk with
    | .past rest => drainBuffered queued wireIn rest
    | .more seen =>
      if seen = 2 then drainBuffered queued wireIn [] else swallowChunks queued seen wireIn

/-- `wireIn` is the chunks that come before the wait is over. -/
def swallowOverAndOut (queued : Nat) (wireIn : List (List UInt8)) (pending : List UInt8) :
    Trailing :=
  swallowChunks queued 0 (if pending.isEmpty then wireIn else pending :: wireIn)

/-- What reaches the terminal, now or by the ordinary way. -/
def Trailing.shown (trailing : Trailing) : List UInt8 := trailing.bytes ++ trailing.wireIn.flatten

/-! ### What should reach the terminal -/

/-- All but the residue and the sign-off. -/
def withoutSignOff (stream : List UInt8) : List UInt8 :=
  match stream.dropWhile isResidue with
  | first :: second :: rest =>
    if first = letterO ∧ second = letterO then rest else first :: second :: rest
  | short => short

/-- Behind the residue comes a single letter of a sign-off. -/
def LoneLetter (stream : List UInt8) : Prop :=
  ∃ rest, stream.dropWhile isResidue = letterO :: rest ∧ rest.head? ≠ some letterO

/-! ### The bytes as one stream -/

/-- What is for the terminal of a stream heard to its end. -/
def Heard.bytes : Heard → List UInt8
  | .more _ => []
  | .past rest => rest

def Heard.andThen (heard : Heard) (later : List UInt8) : Heard :=
  match heard with
  | .more seen => hear seen later
  | .past rest => .past (rest ++ later)

theorem hear_append (seen : Nat) (first second : List UInt8) :
    hear seen (first ++ second) = (hear seen first).andThen second := by
  induction first generalizing seen with
  | nil => rfl
  | cons byte rest inductionHypothesis =>
    rw [cons_append, hear, hear]
    split
    · exact inductionHypothesis _
    · split
      · exact inductionHypothesis _
      · rfl

theorem bytes_hear_two (stream : List UInt8) : (hear 2 stream).bytes = stream := by
  cases stream with
  | nil => rfl
  | cons byte rest => simp [hear, Heard.bytes]

theorem shown_drainBuffered (queued : Nat) (wireIn : List (List UInt8)) (head : List UInt8) :
    (drainBuffered queued wireIn head).shown = head ++ wireIn.flatten := by
  rw [Trailing.shown, drainBuffered, append_assoc, ← flatten_append,
    take_append_drop]

theorem shown_swallowChunks (queued seen : Nat) (wireIn : List (List UInt8)) :
    (swallowChunks queued seen wireIn).shown = (hear seen wireIn.flatten).bytes := by
  induction wireIn generalizing seen with
  | nil => rfl
  | cons chunk wireIn inductionHypothesis =>
    rw [flatten_cons, hear_append, swallowChunks]
    cases heard : hear seen chunk with
    | past rest => exact shown_drainBuffered queued wireIn rest
    | more later =>
      simp only [Heard.andThen]
      split
      · rename_i both
        rw [shown_drainBuffered, both, bytes_hear_two, nil_append]
      · exact inductionHypothesis later

/-- The residue goes first. -/
theorem hear_zero (stream : List UInt8) :
    hear 0 stream = hear 0 (stream.dropWhile isResidue) := by
  induction stream with
  | nil => rfl
  | cons byte rest inductionHypothesis =>
    by_cases residue : isResidue byte = true
    · have notLetter : byte ≠ letterO := by
        rintro rfl
        cases residue
      rw [dropWhile_cons_of_pos residue, ← inductionHypothesis, hear,
        if_neg fun isLetter => notLetter isLetter.1, if_pos ⟨residue, rfl⟩]
    · rw [dropWhile_cons_of_neg residue]

theorem hear_of_shell {first : UInt8} {rest : List UInt8} (notLetter : first ≠ letterO)
    (notResidue : isResidue first = false) : hear 0 (first :: rest) = .past (first :: rest) := by
  rw [hear, if_neg fun isLetter => notLetter isLetter.1, if_neg]
  rw [notResidue]
  exact fun both => Bool.noConfusion both.1

theorem hear_one {rest : List UInt8} (other : rest.head? ≠ some letterO) :
    (hear 0 (letterO :: rest)).bytes = rest := by
  cases rest with
  | nil => rfl
  | cons second rest =>
    have notLetter : second ≠ letterO := fun same => other (congrArg some same)
    show (hear 1 (second :: rest)).bytes = _
    rw [hear, if_neg fun isLetter => notLetter isLetter.1, if_neg fun both => absurd both.2 (by decide)]
    rfl

/-- What is shown is what should be, or without a letter that is the shell's. -/
theorem bytes_hear (stream : List UInt8) :
    (¬ LoneLetter stream ∧ (hear 0 stream).bytes = withoutSignOff stream) ∨
      (LoneLetter stream ∧ withoutSignOff stream = letterO :: (hear 0 stream).bytes) := by
  rw [hear_zero, withoutSignOff, LoneLetter]
  have clean := head?_dropWhile_not isResidue stream
  cases shell : stream.dropWhile isResidue with
  | nil =>
    refine .inl ⟨?_, rfl⟩
    rintro ⟨rest, none, _⟩
    cases none
  | cons first rest =>
    rw [shell] at clean
    change isResidue first = false at clean
    by_cases isLetter : first = letterO
    · subst isLetter
      by_cases signed : rest.head? = some letterO
      · obtain ⟨others, rfl⟩ : ∃ others, rest = letterO :: others := by
          cases rest with
          | nil => cases signed
          | cons second others =>
            cases signed
            exact ⟨others, rfl⟩
        refine .inl ⟨?_, ?_⟩
        · rintro ⟨lone, same, other⟩
          cases same
          exact other rfl
        · exact bytes_hear_two others
      · refine .inr ⟨⟨rest, rfl, signed⟩, ?_⟩
        rw [hear_one signed]
        cases rest with
        | nil => rfl
        | cons second others => exact if_neg fun both => signed (congrArg some both.2)
    · refine .inl ⟨?_, ?_⟩
      · rintro ⟨lone, same, _⟩
        cases same
        exact isLetter rfl
      · rw [hear_of_shell isLetter clean]
        cases rest with
        | nil => rfl
        | cons second others => exact (if_neg fun both => isLetter both.1).symm

/-- However the bytes are cut, and whatever of them is queued by the end, the terminal gets all but
the residue and the sign-off, unless a single letter of a sign-off is the shell's. -/
theorem swallowOverAndOut_iff (queued : Nat) (wireIn : List (List UInt8)) (pending : List UInt8) :
    (swallowOverAndOut queued wireIn pending).shown = withoutSignOff (pending ++ wireIn.flatten) ↔
      ¬ LoneLetter (pending ++ wireIn.flatten) := by
  have shown : (swallowOverAndOut queued wireIn pending).shown =
      (hear 0 (pending ++ wireIn.flatten)).bytes := by
    unfold swallowOverAndOut
    rw [shown_swallowChunks]
    cases pending with
    | nil => rfl
    | cons byte rest => rfl
  rw [shown]
  rcases bytes_hear (pending ++ wireIn.flatten) with ⟨notLone, same⟩ | ⟨lone, longer⟩
  · exact iff_of_true same notLone
  · refine iff_of_false (fun same => ?_) (fun notLone => notLone lone)
    have lengths := congrArg List.length (same.trans longer)
    rw [length_cons] at lengths
    omega

/-- The other side does not sign off, and the shell says "Oops". -/
theorem not_withoutSignOff_oops :
    (swallowOverAndOut 0 [] [79, 111, 112, 115]).shown ≠ withoutSignOff [79, 111, 112, 115] := by
  decide

end Oryxis.Zmodem

/-
This file is the names a ZMODEM download uses in its folder: the name a sender
announces made safe, the numbered names that follow it, the part a file is received
into and the record beside it that says whose part it is.

No safe name starts with a dot, and the record's name does. So no file that is
received, finished or not, is ever mistaken for a record.
-/

import Oryxis.Sftp.EntryNames

namespace Oryxis.Zmodem

open List

def partSuffix : String := ".oryxis-part"

/-! ### Safe names -/

def isControl (letter : Char) : Bool :=
  let code := letter.toNat
  code < 0x20 || (0x7F ≤ code && code < 0xA0)

def trimMatches (drops : Char → Bool) (letters : List Char) : List Char :=
  (letters.dropWhile drops).rdropWhile drops

def isWindowsReserved (stem : List Char) : Bool :=
  let upper := (stem.rdropWhile isWhiteSpace).map Char.toUpper
  ["CON", "PRN", "AUX", "NUL"].any (fun device => upper = device.toList) ||
    match upper with
    | [first, second, third, digit] =>
      ([first, second, third] = "COM".toList || [first, second, third] = "LPT".toList) &&
        digit.isDigit && digit ≠ '0'
    | _ => false

/-- Punctuation that Windows reserves. -/
def neutralize (letter : Char) : Char :=
  if letter ∈ ":<>\"|?*".toList then '_' else letter

/-- `raw` is what the sender's bytes decode to. -/
def sanitizeName (raw : String) : String :=
  let last := (raw.toList.splitOnP fun letter => letter = '/' || letter = '\\').getLast?.getD []
  let base := trimMatches
    (fun letter => letter = '.' || isWhiteSpace letter || isControl letter) last
  if base = [] ∨ base = ['.', '.'] then "received.bin"
  else
    let base := base.map neutralize
    if isWindowsReserved (beforeDot base) then String.ofList ('_' :: base) else String.ofList base

/-! ### Numbered names -/

/-- A name before and after its last dot. -/
def rsplitDot (letters : List Char) : Option (List Char × List Char) :=
  match letters.reverse.dropWhile (· ≠ '.') with
  | [] => none
  | _ :: stem => some (stem.reverse, (letters.reverse.takeWhile (· ≠ '.')).reverse)

def numberedName (name : String) (number : Nat) : String :=
  let counter := " (" ++ toString number ++ ")"
  match rsplitDot name.toList with
  | some (first :: stem, ext) =>
    String.ofList (first :: stem) ++ counter ++ "." ++ String.ofList ext
  | _ => name ++ counter

/-- The names that are tried one after the other. -/
def candidateName (name : String) (number : Nat) : String :=
  if number = 0 then name else numberedName name number

/-- How many names are tried. -/
def maxCandidates : Nat := 10000

/-! ### Parts and their records -/

def partOf (stem : String) : String := stem ++ partSuffix

def resumeOwnerPath (stem : String) : String := "." ++ stem ++ partSuffix

def resumeOwnerRecord (owner : String) (advertised : Nat) : String :=
  owner ++ "\n" ++ toString advertised ++ "\n"

/-- A name that reads as a part. -/
def IsPartName (name : String) : Prop := partSuffix.toList <:+ name.toList

instance (name : String) : Decidable (IsPartName name) := inferInstanceAs (Decidable (_ <:+ _))

/-- A name that does not start with a dot. -/
def Undotted (name : String) : Prop := ∃ first rest, name.toList = first :: rest ∧ first ≠ '.'

theorem isPartName_partOf (stem : String) : IsPartName (partOf stem) := by
  rw [IsPartName, partOf, String.toList_append]
  exact suffix_append ..

theorem isPartName_resumeOwnerPath (stem : String) : IsPartName (resumeOwnerPath stem) := by
  rw [IsPartName, resumeOwnerPath, String.toList_append]
  exact suffix_append ..

variable {other : String}

theorem resumeOwnerPath_inj {stem : String} (same : resumeOwnerPath stem = resumeOwnerPath other) :
    stem = other := by
  have letters := congrArg String.toList same
  simp only [resumeOwnerPath, String.toList_append] at letters
  exact String.toList_inj.mp (append_cancel_left (append_cancel_right letters))

variable {name : String}

theorem ne_resumeOwnerPath (undotted : Undotted name) (stem : String) :
    name ≠ resumeOwnerPath stem := by
  rintro rfl
  obtain ⟨first, rest, letters, notDot⟩ := undotted
  simp only [resumeOwnerPath, String.toList_append] at letters
  exact notDot (cons.inj letters).1.symm

theorem Undotted.partOf {stem : String} (undotted : Undotted stem) : Undotted (partOf stem) := by
  obtain ⟨first, rest, letters, notDot⟩ := undotted
  exact ⟨first, rest ++ partSuffix.toList,
    by rw [Zmodem.partOf, String.toList_append, letters, cons_append], notDot⟩

theorem undotted_append {suffix : String} (undotted : Undotted name) :
    Undotted (name ++ suffix) := by
  obtain ⟨first, rest, letters, notDot⟩ := undotted
  exact ⟨first, rest ++ suffix.toList,
    by rw [String.toList_append, letters, cons_append], notDot⟩

variable {letters rest : List Char}

theorem trimMatches_head {drops : Char → Bool} {first : Char}
    (trimmed : trimMatches drops letters = first :: rest) : drops first = false := by
  have isPrefix : trimMatches drops letters <+: letters.dropWhile drops := rdropWhile_prefix ..
  obtain ⟨others, whole⟩ := isPrefix
  rw [trimmed, cons_append] at whole
  have head := head?_dropWhile_not drops letters
  rw [← whole] at head
  simpa using head

theorem neutralize_ne_dot {letter : Char} (notDot : letter ≠ '.') : neutralize letter ≠ '.' := by
  unfold neutralize
  split
  · decide
  · exact notDot

/-- No safe name starts with a dot. -/
theorem undotted_sanitizeName (raw : String) : Undotted (sanitizeName raw) := by
  unfold sanitizeName
  simp only []
  split
  · exact ⟨'r', "eceived.bin".toList, rfl, by decide⟩
  · rename_i notEmpty
    rw [not_or] at notEmpty
    obtain ⟨first, rest, base⟩ := exists_cons_of_ne_nil notEmpty.1
    have kept := trimMatches_head base
    simp only [Bool.or_eq_false_iff, decide_eq_false_iff_not] at kept
    rw [base]
    split
    · exact ⟨'_', _, String.toList_ofList, by decide⟩
    · exact ⟨neutralize first, rest.map neutralize, String.toList_ofList,
        neutralize_ne_dot kept.1.1⟩

theorem stem_prefix_of_rsplitDot {stem ext : List Char}
    (split : rsplitDot letters = some (stem, ext)) : stem <+: letters := by
  unfold rsplitDot at split
  cases dropped : letters.reverse.dropWhile (· ≠ '.') with
  | nil =>
    rw [dropped] at split
    cases split
  | cons dot backwards =>
    rw [dropped] at split
    cases split
    have whole : letters.reverse.takeWhile (· ≠ '.') ++ letters.reverse.dropWhile (· ≠ '.') =
        letters.reverse := takeWhile_append_dropWhile
    rw [dropped] at whole
    refine ⟨dot :: (letters.reverse.takeWhile (· ≠ '.')).reverse, ?_⟩
    have back := congrArg List.reverse whole
    simpa using back

theorem undotted_numberedName (undotted : Undotted name) (number : Nat) :
    Undotted (numberedName name number) := by
  unfold numberedName
  simp only []
  split
  · rename_i first stem ext split
    obtain ⟨rest, whole⟩ := stem_prefix_of_rsplitDot split
    obtain ⟨head, others, letters, notDot⟩ := undotted
    rw [letters, cons_append] at whole
    have isHead : first = head := (cons.inj whole).1
    have begins : Undotted (String.ofList (first :: stem)) :=
      ⟨first, stem, String.toList_ofList, isHead ▸ notDot⟩
    exact undotted_append (undotted_append (undotted_append begins))
  · exact undotted_append undotted

theorem undotted_candidateName (undotted : Undotted name) (number : Nat) :
    Undotted (candidateName name number) := by
  unfold candidateName
  split
  · exact undotted
  · exact undotted_numberedName undotted number

/-! ### What a record says -/

theorem toString_toList (number : Nat) : (toString number).toList = Nat.toDigits 10 number := by
  rw [Nat.toString_eq_repr, Nat.repr_eq_ofList_toDigits, String.toList_ofList]

theorem append_cons_inj {before other after : List Char} {mark : Char} (fresh : mark ∉ before)
    (otherFresh : mark ∉ other) (same : before ++ mark :: after = other ++ mark :: rest) :
    before = other ∧ after = rest := by
  have upTo : ∀ letters later : List Char, mark ∉ letters →
      (letters ++ mark :: later).takeWhile (· ≠ mark) = letters := by
    intro letters later notIn
    rw [takeWhile_append_of_pos]
    · simp
    · rintro letter member
      simpa using fun (isMark : letter = mark) => notIn (isMark ▸ member)
  have sameBefore : before = other := by
    rw [← upTo before after fresh, same, upTo other rest otherFresh]
  subst sameBefore
  exact ⟨rfl, (cons.inj (append_cancel_left same)).2⟩

variable {owner : String} {advertised size : Nat}

/-- A record names one owner and one size. -/
theorem resumeOwnerRecord_inj
    (same : resumeOwnerRecord owner advertised = resumeOwnerRecord other size) :
    owner = other ∧ advertised = size := by
  have digits : ∀ number, '\n' ∉ (Nat.toDigits 10 number).reverse := by
    intro number member
    have digit := Nat.isDigit_of_mem_toDigits (by decide) (by decide) (mem_reverse.mp member)
    cases digit
  -- Backwards, the size comes first and ends at the first line break.
  have backwards : (Nat.toDigits 10 advertised).reverse ++ '\n' :: owner.toList.reverse =
      (Nat.toDigits 10 size).reverse ++ '\n' :: other.toList.reverse := by
    have letters := congrArg (fun text => text.toList.reverse) same
    simp only [resumeOwnerRecord, String.toList_append, toString_toList, reverse_append] at letters
    simpa using letters
  obtain ⟨sizes, owners⟩ := append_cons_inj (digits advertised) (digits size) backwards
  constructor
  · exact String.toList_inj.mp (reverse_inj.mp owners)
  · have read := congrArg (fun digits => Nat.ofDigitChars 10 digits 0) (reverse_inj.mp sizes)
    simpa using read

/-- The bytes of a record. -/
def recordBytes (owner : String) (advertised : Nat) : List UInt8 :=
  (resumeOwnerRecord owner advertised).toByteArray.data.toList

theorem recordBytes_inj (same : recordBytes owner advertised = recordBytes other size) :
    owner = other ∧ advertised = size := by
  refine resumeOwnerRecord_inj (String.toByteArray_inj.mp (ByteArray.ext ?_))
  exact Array.toList_inj.mp same

end Oryxis.Zmodem

/-
This file is the names an SFTP server chooses and the local paths they become: the
check a name passes before it is joined onto a path, the scratch name a download
writes under, and where a platform takes a path.

The check and the scratch name are the program's. Where a path leads is the
platform's: on Unix a slash separates and two dots go up. Win32 has the backslash
besides, a drive letter re-roots, the dots and spaces at the end of a component are
dropped, and a component whose part before the first dot is a device name, spaces at
its end aside, is that device in whatever directory it stands.
-/

import Mathlib.Data.List.DropRight
import Oryxis.Library.Utf8

namespace Oryxis

open Library List

/-! ### The check -/

/-- The white space that trimming a text drops. -/
def isWhiteSpace (letter : Char) : Bool :=
  let code := letter.toNat
  (0x9 ≤ code && code ≤ 0xD) || code = 0x20 || code = 0x85 || code = 0xA0 || code = 0x1680 ||
    (0x2000 ≤ code && code ≤ 0x200A) || code = 0x2028 || code = 0x2029 || code = 0x202F ||
    code = 0x205F || code = 0x3000

/-- The part of a name before its first dot. -/
def beforeDot (letters : List Char) : List Char := letters.takeWhile (· ≠ '.')

def isWindowsDeviceName (stem : List Char) : Bool :=
  let upper := stem.map Char.toUpper
  ["CON", "PRN", "AUX", "NUL"].any (fun device => upper = device.toList) ||
    match upper with
    | [first, second, third, digit] =>
      ([first, second, third] = "COM".toList || [first, second, third] = "LPT".toList) &&
        digit.isDigit
    | _ => false

def isSafeEntryNameOn (name : String) (windows : Bool) : Bool :=
  let letters := name.toList
  if letters = [] ∨ letters = ['.'] ∨ letters = ['.', '.'] then false
  else if '/' ∈ letters ∨ '\\' ∈ letters ∨ Char.ofNat 0 ∈ letters then false
  else if windows then
    if (utf8Bytes letters)[1]? = some 0x3A then false
    else if letters.getLast? = some '.' ∨ letters.getLast? = some ' ' then false
    else !isWindowsDeviceName ((beforeDot letters).rdropWhile isWhiteSpace)
  else true

/-! ### The scratch name -/

def partSuffix : String := ".oryxis-part"

def nameMax : Nat := 255

/-- A name from its end, letters popped until it fits. -/
def popToFit (budget : Nat) : List Char → List Char
  | [] => []
  | last :: others =>
    if utf8Len (last :: others) ≤ budget then last :: others else popToFit budget others

def fitPartName (name : String) : String :=
  String.ofList (popToFit (nameMax - utf8Len partSuffix.toList) name.toList.reverse).reverse ++
    partSuffix

/-- The scratch name beside a file's name. -/
def partName (name : String) : String :=
  if utf8Len name.toList + utf8Len partSuffix.toList ≤ nameMax then name ++ partSuffix
  else fitPartName name

/-- A local path: its components. -/
abbrev LocalPath := List String

def partPath (path : LocalPath) : LocalPath :=
  path.dropLast ++ [partName (path.getLast?.getD "")]

/-! ### Where a path leads -/

/-- The device a component names in any directory. -/
def isWin32Device (part : List Char) : Bool :=
  let upper := ((beforeDot part).rdropWhile (· = ' ')).map Char.toUpper
  ["CON", "PRN", "AUX", "NUL", "CONIN$", "CONOUT$"].any (fun device => upper = device.toList) ||
    match upper with
    | [first, second, third, digit] =>
      ([first, second, third] = "COM".toList || [first, second, third] = "LPT".toList) &&
        (digit.isDigit || digit ∈ ['¹', '²', '³'])
    | _ => false

def isSeparator (windows : Bool) (letter : Char) : Bool :=
  letter = '/' || (windows && letter = '\\')

/-- A path that starts at a root or a drive of its own. -/
def reroots (windows : Bool) (letters : List Char) : Bool :=
  match letters with
  | first :: ':' :: _ => isSeparator windows first || (windows && first.isAlpha)
  | first :: _ => isSeparator windows first
  | [] => false

/-- One component from a directory. `None` is outside of where the path began, or a device. -/
def enter (windows : Bool) (dir : LocalPath) (part : List Char) : Option LocalPath :=
  if part = [] ∨ part = ['.'] then some dir
  else if part = ['.', '.'] then if dir = [] then none else some dir.dropLast
  else if windows then
    if isWin32Device part then none
    else
      let kept := part.rdropWhile fun letter => letter = '.' || letter = ' '
      if kept = [] then some dir else some (dir ++ [String.ofList kept])
  else some (dir ++ [String.ofList part])

/-- What a name joined onto a directory leads to. -/
def follow (windows : Bool) (dir : LocalPath) (name : String) : Option LocalPath :=
  if Char.ofNat 0 ∈ name.toList ∨ reroots windows name.toList then none
  else (name.toList.splitOnP (isSeparator windows)).foldlM (enter windows) dir

/-- Where the names joined one after the other lead, from the directory they are joined onto. -/
def resolvePath (windows : Bool) (names : List String) : Option LocalPath :=
  names.foldlM (follow windows) []

/-! ### Plain names -/

/-- A name that is a component of its own on the platform, unless it is a device. -/
structure PlainName (windows : Bool) (letters : List Char) : Prop where
  notEmpty : letters ≠ []
  notDot : letters ≠ ['.']
  notDots : letters ≠ ['.', '.']
  noSeparator : ∀ letter ∈ letters, isSeparator windows letter = false
  noNul : Char.ofNat 0 ∉ letters
  staysBelow : reroots windows letters = false
  keepsEnd : windows = true → letters.getLast? ≠ some '.' ∧ letters.getLast? ≠ some ' '

variable {windows : Bool} {name : String}

theorem follow_of_plainName (plain : PlainName windows name.toList) (dir : LocalPath) :
    follow windows dir name =
      if windows && isWin32Device name.toList then none else some (dir ++ [name]) := by
  have together : name.toList.splitOnP (isSeparator windows) = [name.toList] :=
    splitOnP_eq_singleton plain.noSeparator
  have entered : follow windows dir name = enter windows dir name.toList := by
    rw [follow, if_neg (by simp [plain.noNul, plain.staysBelow]), together, foldlM_cons]
    simp
  rw [entered, enter, if_neg (by simp [plain.notEmpty, plain.notDot]), if_neg plain.notDots]
  cases windows with
  | false => simp
  | true =>
    have kept : name.toList.rdropWhile (fun letter => letter = '.' || letter = ' ') =
        name.toList := by
      rw [rdropWhile_eq_self_iff]
      intro notEmpty dropped
      have last := getLast?_eq_getLast_of_ne_nil notEmpty
      have ends := plain.keepsEnd rfl
      rw [last] at ends
      simp only [Bool.or_eq_true, decide_eq_true_eq] at dropped
      rcases dropped with isDot | isSpace
      · exact ends.1 (congrArg some isDot)
      · exact ends.2 (congrArg some isSpace)
    simp only [kept, if_neg plain.notEmpty, String.ofList_toList, Bool.true_and, if_true]

theorem isAlpha_secondByte {first : Char} (alpha : first.isAlpha = true) (rest : List Char) :
    (utf8Bytes (first :: ':' :: rest))[1]? = some 0x3A := by
  have small : first.utf8Size = 1 := by
    rw [Char.utf8Size_eq_one_iff]
    delta Char.isAlpha Char.isUpper Char.isLower at alpha
    simp only [Bool.or_eq_true, Bool.and_eq_true, decide_eq_true_eq] at alpha
    rcases alpha with upper | lower
    · exact UInt32.le_trans upper.2 (by decide)
    · exact UInt32.le_trans lower.2 (by decide)
  rw [utf8Bytes, flatMap_cons, String.utf8EncodeChar_eq_singleton small]
  rfl

theorem plainName_of_safe (safe : isSafeEntryNameOn name windows = true) :
    PlainName windows name.toList := by
  unfold isSafeEntryNameOn at safe
  simp only [] at safe
  split at safe
  · cases safe
  rename_i notDots
  split at safe
  · cases safe
  rename_i noSeparators
  rw [not_or, not_or] at notDots noSeparators
  have noSeparator : ∀ letter ∈ name.toList, isSeparator windows letter = false := by
    intro letter member
    have notSlash : letter ≠ '/' := fun same => noSeparators.1 (same ▸ member)
    have notBackslash : letter ≠ '\\' := fun same => noSeparators.2.1 (same ▸ member)
    simp [isSeparator, notSlash, notBackslash]
  refine ⟨notDots.1, notDots.2.1, notDots.2.2, noSeparator, noSeparators.2.2, ?_, ?_⟩
  · unfold reroots
    split
    · rename_i first rest isName
      have here := noSeparator first (by simp [isName])
      rw [here, Bool.false_or, Bool.and_eq_false_iff]
      by_contra drive
      rw [not_or, Bool.not_eq_false, Bool.not_eq_false] at drive
      rw [if_pos drive.1, if_pos (isName ▸ isAlpha_secondByte drive.2 rest)] at safe
      cases safe
    · rename_i first rest _ isName
      exact noSeparator first (by simp [isName])
    · rfl
  · rintro rfl
    rw [if_pos rfl] at safe
    split at safe
    · cases safe
    · split at safe
      · cases safe
      · rename_i ends
        exact not_or.mp ends

/-! ### Scratch names -/

theorem popToFit_isSuffix (budget : Nat) (letters : List Char) :
    popToFit budget letters <:+ letters := by
  induction letters with
  | nil => exact suffix_rfl
  | cons last others inductionHypothesis =>
    rw [popToFit]
    split
    · exact suffix_rfl
    · exact inductionHypothesis.trans (suffix_cons _ _)

/-- A scratch name is the beginning of the name and the suffix. -/
theorem exists_partName (name : String) :
    ∃ taken, taken <+: name.toList ∧ (partName name).toList = taken ++ partSuffix.toList := by
  unfold partName fitPartName
  split
  · exact ⟨name.toList, prefix_rfl, String.toList_append⟩
  · refine ⟨_, ?_, by rw [String.toList_append, String.toList_ofList]⟩
    have popped := popToFit_isSuffix (nameMax - utf8Len partSuffix.toList) name.toList.reverse
    simpa using reverse_prefix.mpr popped

theorem reroots_append {name taken : List Char} (isPrefix : taken <+: name)
    (staysBelow : reroots windows name = false) :
    reroots windows (taken ++ partSuffix.toList) = false := by
  obtain ⟨rest, rfl⟩ := isPrefix
  match taken with
  | [] => cases windows <;> decide
  | [first] =>
    have noColon : ([first] ++ partSuffix.toList) = first :: '.' :: "oryxis-part".toList := rfl
    rw [noColon, reroots]
    · cases rest with
      | nil => exact staysBelow
      | cons second rest =>
        rw [cons_append, nil_append, reroots.eq_def] at staysBelow
        split at staysBelow
        · rename_i isName
          cases isName
          exact (Bool.or_eq_false_iff.mp staysBelow).1
        · rename_i isName
          cases isName
          exact staysBelow
        · rename_i isName
          cases isName
    · intro rest isName
      cases isName
  | first :: second :: taken =>
    by_cases isColon : second = ':'
    · subst isColon
      simpa [reroots] using staysBelow
    · simpa [reroots, isColon] using staysBelow

theorem PlainName.partName {windows : Bool} {name : String}
    (plain : PlainName windows name.toList) : PlainName windows (partName name).toList := by
  obtain ⟨taken, isPrefix, isPart⟩ := exists_partName name
  have ends : (taken ++ partSuffix.toList).getLast? = some 't' := by
    rw [getLast?_append]
    rfl
  have long : ∀ {short : List Char}, short.getLast? ≠ some 't' →
      taken ++ partSuffix.toList ≠ short := by
    rintro short other rfl
    exact other ends
  rw [isPart]
  refine ⟨long (by decide), long (by decide), long (by decide), ?_, ?_,
    reroots_append isPrefix plain.staysBelow, fun _ => ?_⟩
  · intro letter member
    rcases mem_append.mp member with isTaken | isSuffix
    · exact plain.noSeparator letter (isPrefix.mem isTaken)
    · have each : ∀ letter ∈ partSuffix.toList, isSeparator windows letter = false := by
        cases windows <;> simp [partSuffix, isSeparator]
      exact each letter isSuffix
  · rw [mem_append, not_or]
    exact ⟨fun isTaken => plain.noNul (isPrefix.mem isTaken), by decide⟩
  · rw [ends]
    decide

end Oryxis

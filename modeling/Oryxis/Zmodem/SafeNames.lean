/-
This file proves how safe a sanitized name is.

A sender announces a name as bytes. What they decode to is stripped of its folders and of
the dots, the white space and the control characters at its ends, its reserved punctuation
is replaced, and a device name gets a mark in front. All that holds whatever the bytes
are, and what is safe once stays as it is. Two things get past: a control character in the
middle of a name, and the device names that are not on the list.
-/

import Oryxis.Zmodem.Names

namespace Oryxis.Zmodem

open Library List

/-- The safe name of what a sender announces. -/
def sanitizeBytes (raw : List UInt8) : String := sanitizeName (fromUtf8Lossy raw)

/-! ### What a safe name is -/

/-- What is dropped at the ends of a name. -/
def isTrimmed (letter : Char) : Bool := letter = '.' || isWhiteSpace letter || isControl letter

def reservedPunctuation : List Char := ":<>\"|?*".toList

/-- The part of a name that a device is told by. -/
def deviceStem (drops : Char → Bool) (letters : List Char) : List Char :=
  ((beforeDot letters).rdropWhile drops).map Char.toUpper

/-- Whether a name opens a device, in any case and whatever follows the dot. COM0 and LPT0
are no devices here. -/
def isReservedDevice (letters : List Char) : Bool :=
  isWin32Device letters && (deviceStem (· = ' ') letters).getLast? ≠ some '0'

/-- The devices that are not on the program's list. -/
def unlistedDevices : List (List Char) :=
  ["CONIN$", "CONOUT$", "COM¹", "COM²", "COM³", "LPT¹", "LPT²", "LPT³"].map String.toList

/-- A name to write a download under, on every platform. -/
structure SafeName (name : String) : Prop where
  notEmpty : name.toList ≠ []
  oneComponent : '/' ∉ name.toList ∧ '\\' ∉ name.toList
  noPunctuation : ∀ letter ∈ name.toList, letter ∉ reservedPunctuation
  noControl : ∀ letter ∈ name.toList, isControl letter = false
  notHidden : name.toList.head? ≠ some '.'
  keepsEnd : name.toList.getLast? ≠ some '.' ∧ name.toList.getLast? ≠ some ' '
  noDevice : isReservedDevice name.toList = false

/-- A name that the sanitizer leaves alone. -/
structure Settled (letters : List Char) : Prop where
  notEmpty : letters ≠ []
  oneComponent : ∀ letter ∈ letters, (letter = '/' || letter = '\\') = false
  keepsStart : ∀ first, letters.head? = some first → isTrimmed first = false
  keepsEnd : ∀ last, letters.getLast? = some last → isTrimmed last = false
  noPunctuation : ∀ letter ∈ letters, letter ∉ reservedPunctuation
  unlisted : isWindowsReserved (beforeDot letters) = false

/-! ### Trimming -/

/-- The last component of what a sender announces. -/
def lastComponent (raw : String) : List Char :=
  (raw.toList.splitOnP fun letter => letter = '/' || letter = '\\').getLast?.getD []

/-- The part of an announced name that is kept. -/
def strippedBase (raw : String) : List Char := trimMatches isTrimmed (lastComponent raw)

variable (raw : String)

theorem sanitizeName_eq :
    sanitizeName raw =
      if strippedBase raw = [] then "received.bin"
      else if isWindowsReserved (beforeDot ((strippedBase raw).map neutralize)) then
        String.ofList ('_' :: (strippedBase raw).map neutralize)
      else String.ofList ((strippedBase raw).map neutralize) := by
  have unfolded : sanitizeName raw =
      if strippedBase raw = [] ∨ strippedBase raw = ['.', '.'] then "received.bin"
      else if isWindowsReserved (beforeDot ((strippedBase raw).map neutralize)) then
        String.ofList ('_' :: (strippedBase raw).map neutralize)
      else String.ofList ((strippedBase raw).map neutralize) := rfl
  rw [unfolded]
  -- A trimmed name does not start with a dot.
  have notDots : strippedBase raw ≠ ['.', '.'] := by
    intro dots
    have kept := trimMatches_head dots
    simp [isTrimmed] at kept
  simp only [notDots, or_false]

variable {letters : List Char}

theorem isTrimmed_getLast {last : Char}
    (ends : (trimMatches isTrimmed letters).getLast? = some last) : isTrimmed last = false := by
  have notEmpty : trimMatches isTrimmed letters ≠ [] := by
    intro empty
    rw [empty] at ends
    cases ends
  have kept := rdropWhile_last_not isTrimmed (letters.dropWhile isTrimmed) notEmpty
  rw [getLast?_eq_getLast_of_ne_nil notEmpty] at ends
  rw [← Option.some.inj ends]
  exact Bool.not_eq_true _ ▸ kept

variable {drops : Char → Bool}

theorem mem_splitOnPPrepend {before part : List Char}
    (fresh : ∀ letter ∈ before, drops letter = false)
    (member : part ∈ letters.splitOnPPrepend drops before) :
    ∀ letter ∈ part, drops letter = false := by
  induction letters generalizing before with
  | nil =>
    rw [splitOnPPrepend_nil, mem_singleton] at member
    subst member
    exact fun letter within => fresh letter (mem_reverse.mp within)
  | cons first others inductionHypothesis =>
    rw [splitOnPPrepend_cons_eq_if] at member
    split at member
    · rcases mem_cons.mp member with rfl | later
      · exact fun letter within => fresh letter (mem_reverse.mp within)
      · exact inductionHypothesis (by simp) later
    · rename_i kept
      refine inductionHypothesis ?_ member
      intro letter within
      rcases mem_cons.mp within with rfl | earlier
      · exact Bool.not_eq_true _ ▸ kept
      · exact fresh letter earlier

theorem lastComponent_noSeparator :
    ∀ letter ∈ lastComponent raw, (letter = '/' || letter = '\\') = false := by
  unfold lastComponent
  cases last : (raw.toList.splitOnP fun letter => letter = '/' || letter = '\\').getLast? with
  | none => simp
  | some part => exact mem_splitOnPPrepend (by simp) (mem_of_getLast? last)

theorem mem_of_mem_trimMatches {letter : Char} (member : letter ∈ trimMatches drops letters) :
    letter ∈ letters :=
  (dropWhile_sublist drops).subset ((List.rdropWhile_prefix drops _).subset member)

theorem trimMatches_of_kept (keepsStart : ∀ first, letters.head? = some first → drops first = false)
    (keepsEnd : ∀ last, letters.getLast? = some last → drops last = false) :
    trimMatches drops letters = letters := by
  have start : letters.dropWhile drops = letters := by
    cases letters with
    | nil => rfl
    | cons first others =>
      rw [dropWhile_cons_of_neg]
      rw [keepsStart first rfl]
      decide
  rw [trimMatches, start, rdropWhile_eq_self_iff]
  intro notEmpty dropped
  rw [keepsEnd _ (getLast?_eq_getLast_of_ne_nil notEmpty)] at dropped
  cases dropped

/-! ### Neutral letters -/

variable (letter : Char)

theorem neutralize_cases :
    (letter ∈ reservedPunctuation ∧ neutralize letter = '_') ∨
      (letter ∉ reservedPunctuation ∧ neutralize letter = letter) := by
  unfold neutralize
  by_cases reserved : letter ∈ reservedPunctuation
  · exact .inl ⟨reserved, if_pos reserved⟩
  · exact .inr ⟨reserved, if_neg reserved⟩

theorem neutralize_notMem : neutralize letter ∉ reservedPunctuation := by
  rcases neutralize_cases letter with ⟨-, mark⟩ | ⟨free, same⟩
  · rw [mark]
    decide
  · rwa [same]

theorem map_neutralize_self (free : ∀ letter ∈ letters, letter ∉ reservedPunctuation) :
    letters.map neutralize = letters := by
  refine (map_congr_left fun letter member => ?_).trans (map_id letters)
  exact if_neg (free letter member)

/-- What a neutral letter keeps of the one it stands for, where reserved punctuation and the
mark are alike. -/
theorem neutralize_keeps (property : Char → Bool)
    (marked : reservedPunctuation.all (fun letter => property letter == property '_') = true)
    (letter : Char) : property (neutralize letter) = property letter := by
  rcases neutralize_cases letter with ⟨reserved, mark⟩ | ⟨-, same⟩
  · rw [mark, eq_of_beq (all_eq_true.mp marked letter reserved)]
  · rw [same]

theorem isTrimmed_neutralize : isTrimmed (neutralize letter) = isTrimmed letter :=
  neutralize_keeps isTrimmed (by decide) letter

theorem isControl_neutralize : isControl (neutralize letter) = isControl letter :=
  neutralize_keeps isControl (by decide) letter

theorem isSeparator_neutralize :
    (neutralize letter = '/' || neutralize letter = '\\') = (letter = '/' || letter = '\\') := by
  have keeps := neutralize_keeps (fun letter => letter = '/' || letter = '\\') (by decide) letter
  simpa using keeps

/-! ### Settled names -/

theorem sanitizeName_of_settled (settled : Settled letters) :
    sanitizeName (String.ofList letters) = String.ofList letters := by
  have component : lastComponent (String.ofList letters) = letters := by
    rw [lastComponent, String.toList_ofList, splitOnP_eq_singleton settled.oneComponent]
    rfl
  have base : strippedBase (String.ofList letters) = letters := by
    rw [strippedBase, component]
    exact trimMatches_of_kept settled.keepsStart settled.keepsEnd
  rw [sanitizeName_eq, base, if_neg settled.notEmpty,
    map_neutralize_self settled.noPunctuation, settled.unlisted]
  rfl

theorem beforeDot_mark (letters : List Char) :
    beforeDot ('_' :: letters) = '_' :: beforeDot letters := rfl

theorem map_rdropWhile_mark (drops : Char → Bool) (kept : drops '_' = false)
    (letters : List Char) :
    ∃ rest, (('_' :: letters).rdropWhile drops).map Char.toUpper = '_' :: rest := by
  have split : ('_' :: letters) = ['_'] ++ letters := rfl
  obtain ⟨others, isPrefix⟩ := rdropWhile_prefix drops ('_' :: letters)
  cases dropped : ('_' :: letters).rdropWhile drops with
  | nil =>
    rw [rdropWhile_eq_nil_iff] at dropped
    have mark := dropped '_' mem_cons_self
    rw [kept] at mark
    cases mark
  | cons first rest =>
    rw [dropped, cons_append] at isPrefix
    rw [(cons.inj isPrefix).1]
    exact ⟨rest.map Char.toUpper, rfl⟩

/-- No marked name is on the list. -/
theorem isWindowsReserved_mark (letters : List Char) :
    isWindowsReserved (beforeDot ('_' :: letters)) = false := by
  obtain ⟨rest, upper⟩ := map_rdropWhile_mark isWhiteSpace (by decide) (beforeDot letters)
  unfold isWindowsReserved
  simp only [beforeDot_mark, upper]
  rcases rest with - | ⟨a, - | ⟨b, - | ⟨c, - | ⟨d, others⟩⟩⟩⟩ <;> simp

theorem isWin32Device_mark (letters : List Char) : isWin32Device ('_' :: letters) = false := by
  obtain ⟨rest, upper⟩ := map_rdropWhile_mark (· = ' ') (by decide) (beforeDot letters)
  unfold isWin32Device
  simp only [beforeDot_mark, upper]
  rcases rest with - | ⟨a, - | ⟨b, - | ⟨c, - | ⟨d, others⟩⟩⟩⟩ <;> simp

/-! ### Devices -/

/-- The program's list, of a stem that is trimmed. -/
def isListed (upper : List Char) : Bool :=
  ["CON", "PRN", "AUX", "NUL"].any (fun device => upper = device.toList) ||
    match upper with
    | [first, second, third, digit] =>
      ([first, second, third] = "COM".toList || [first, second, third] = "LPT".toList) &&
        digit.isDigit && digit ≠ '0'
    | _ => false

theorem isWindowsReserved_eq (letters : List Char) :
    isWindowsReserved (beforeDot letters) = isListed (deviceStem isWhiteSpace letters) := rfl

/-- The platform's list, of a stem that is trimmed. -/
def isDeviceStem (upper : List Char) : Bool :=
  ["CON", "PRN", "AUX", "NUL", "CONIN$", "CONOUT$"].any (fun device => upper = device.toList) ||
    match upper with
    | [first, second, third, digit] =>
      ([first, second, third] = "COM".toList || [first, second, third] = "LPT".toList) &&
        (digit.isDigit || digit ∈ ['¹', '²', '³'])
    | _ => false

theorem isWin32Device_eq (letters : List Char) :
    isWin32Device letters = isDeviceStem (deviceStem (· = ' ') letters) := rfl

theorem not_isWhiteSpace_of_isDigit {digit : Char} (isDigit : digit.isDigit = true) :
    isWhiteSpace digit = false := by
  have range : 48 ≤ digit.toNat ∧ digit.toNat ≤ 57 := by
    simpa [Char.isDigit, UInt32.le_iff_toNat_le] using isDigit
  simp only [isWhiteSpace, Bool.or_eq_false_iff, Bool.and_eq_false_iff, decide_eq_false_iff_not]
  omega

variable {upper : List Char}

/-- What a device's stem looks like. -/
theorem isDeviceStem_cases (device : isDeviceStem upper = true) :
    isListed upper = true ∨ upper ∈ unlistedDevices ∨
      upper.getLast? = some '0' := by
  simp only [isDeviceStem, Bool.or_eq_true, any_eq_true, decide_eq_true_eq] at device
  rcases device with ⟨name, member, rfl⟩ | port
  · simp only [mem_cons, not_mem_nil, or_false] at member
    rcases member with rfl | rfl | rfl | rfl | rfl | rfl <;> decide
  · split at port
    · rename_i first second third digit
      simp only [Bool.and_eq_true, Bool.or_eq_true, decide_eq_true_eq] at port
      obtain ⟨kind, isDigit | superscript⟩ := port
      · by_cases zero : digit = '0'
        · exact .inr (.inr (by rw [zero]; rfl))
        · refine .inl ?_
          simp only [isListed, isDigit, Bool.or_eq_true, Bool.and_eq_true, decide_eq_true_eq]
          exact .inr ⟨⟨kind, trivial⟩, zero⟩
      · refine .inr (.inl ?_)
        simp only [mem_cons, not_mem_nil, or_false] at superscript
        rcases kind with com | lpt
        · obtain ⟨rfl, rfl, rfl⟩ : first = 'C' ∧ second = 'O' ∧ third = 'M' := by
            simpa using com
          rcases superscript with rfl | rfl | rfl <;> decide
        · obtain ⟨rfl, rfl, rfl⟩ : first = 'L' ∧ second = 'P' ∧ third = 'T' := by
            simpa using lpt
          rcases superscript with rfl | rfl | rfl <;> decide
    · cases port

/-- A listed stem is a device's and ends in no white space. -/
theorem isListed_cases (listed : isListed upper = true) :
    isDeviceStem upper = true ∧ upper ∉ unlistedDevices ∧
      ∃ last, upper.getLast? = some last ∧ last ≠ '0' ∧ isWhiteSpace last = false := by
  simp only [isListed, Bool.or_eq_true, any_eq_true, decide_eq_true_eq] at listed
  rcases listed with ⟨name, member, rfl⟩ | port
  · simp only [mem_cons, not_mem_nil, or_false] at member
    rcases member with rfl | rfl | rfl | rfl
    · exact ⟨by decide, by decide, 'N', by decide⟩
    · exact ⟨by decide, by decide, 'N', by decide⟩
    · exact ⟨by decide, by decide, 'X', by decide⟩
    · exact ⟨by decide, by decide, 'L', by decide⟩
  · split at port
    · rename_i first second third digit
      simp only [Bool.and_eq_true, Bool.or_eq_true, decide_eq_true_eq] at port
      obtain ⟨⟨kind, isDigit⟩, notZero⟩ := port
      refine ⟨?_, ?_, digit, rfl, notZero, not_isWhiteSpace_of_isDigit isDigit⟩
      · simp only [isDeviceStem, isDigit, Bool.or_eq_true, Bool.and_eq_true, decide_eq_true_eq]
        exact .inr ⟨kind, .inl trivial⟩
      · intro member
        have last : digit ∈ unlistedDevices.filterMap List.getLast? :=
          mem_filterMap.mpr ⟨_, member, rfl⟩
        have noDigit : (unlistedDevices.filterMap List.getLast?).all
            (fun letter => !letter.isDigit) = true := by decide
        have notDigit := all_eq_true.mp noDigit digit last
        rw [isDigit] at notDigit
        cases notDigit
    · cases port

theorem unlistedDevices_cases (member : upper ∈ unlistedDevices) :
    isDeviceStem upper = true ∧
      ∃ last, upper.getLast? = some last ∧ last ≠ '0' ∧ isWhiteSpace last = false := by
  have each : ∀ stem ∈ unlistedDevices, isDeviceStem stem = true ∧
      (stem.getLast?.any fun last => last ≠ '0' && !isWhiteSpace last) = true := by decide
  obtain ⟨device, ends⟩ := each upper member
  obtain ⟨last, isLast, kept⟩ := (Option.any_eq_true _ _).mp ends
  simp only [Bool.and_eq_true, decide_eq_true_eq, Bool.not_eq_true'] at kept
  exact ⟨device, last, isLast, kept.1, kept.2⟩

theorem toUpper_of_isWhiteSpace {letter : Char} (space : isWhiteSpace letter = true) :
    letter.toUpper = letter := by
  refine dif_neg fun lower => ?_
  have range : 97 ≤ letter.toNat ∧ letter.toNat ≤ 122 := by
    simpa [UInt32.le_iff_toNat_le] using lower
  simp only [isWhiteSpace, Bool.or_eq_true, Bool.and_eq_true, decide_eq_true_eq] at space
  omega

theorem dropWhile_dropWhile {first second : Char → Bool}
    (within : ∀ letter, first letter = true → second letter = true) (letters : List Char) :
    (letters.dropWhile first).dropWhile second = letters.dropWhile second := by
  induction letters with
  | nil => rfl
  | cons letter others inductionHypothesis =>
    by_cases dropped : first letter = true
    · rw [dropWhile_cons_of_pos dropped, inductionHypothesis,
        dropWhile_cons_of_pos (within letter dropped)]
    · rw [dropWhile_cons_of_neg dropped]

/-- Both ways to trim agree on a stem that ends in no white space. -/
theorem deviceStem_eq {last : Char} (ends : (deviceStem (· = ' ') letters).getLast? = some last)
    (notSpace : isWhiteSpace last = false) :
    deviceStem isWhiteSpace letters = deviceStem (· = ' ') letters := by
  unfold deviceStem at ends ⊢
  have within : ∀ letter : Char, decide (letter = ' ') = true → isWhiteSpace letter = true := by
    intro letter space
    rw [of_decide_eq_true space]
    rfl
  have twice : ((beforeDot letters).rdropWhile (· = ' ')).rdropWhile isWhiteSpace =
      (beforeDot letters).rdropWhile isWhiteSpace := by
    simp only [List.rdropWhile, reverse_reverse, dropWhile_dropWhile within]
  have kept : ((beforeDot letters).rdropWhile (· = ' ')).rdropWhile isWhiteSpace =
      (beforeDot letters).rdropWhile (· = ' ') := by
    rw [rdropWhile_eq_self_iff]
    intro notEmpty space
    rw [getLast?_map, getLast?_eq_getLast_of_ne_nil notEmpty, Option.map_some,
      toUpper_of_isWhiteSpace space] at ends
    rw [Option.some.inj ends, notSpace] at space
    cases space
  rw [← twice, kept]

/-- A device is on the program's list or it is one of the others. -/
theorem isReservedDevice_iff (letters : List Char) :
    isReservedDevice letters = true ↔
      isListed (deviceStem (· = ' ') letters) = true ∨
        deviceStem (· = ' ') letters ∈ unlistedDevices := by
  rw [isReservedDevice, Bool.and_eq_true, decide_eq_true_eq, isWin32Device_eq]
  constructor
  · rintro ⟨device, notZero⟩
    rcases isDeviceStem_cases device with listed | unlisted | zero
    · exact .inl listed
    · exact .inr unlisted
    · exact absurd zero notZero
  · rintro (listed | unlisted)
    · obtain ⟨device, -, last, ends, notZero, -⟩ := isListed_cases listed
      exact ⟨device, fun zero => notZero (Option.some.inj (ends.symm.trans zero))⟩
    · obtain ⟨device, last, ends, notZero, -⟩ := unlistedDevices_cases unlisted
      exact ⟨device, fun zero => notZero (Option.some.inj (ends.symm.trans zero))⟩

/-- No device that is not on the list gets a mark. -/
theorem isWindowsReserved_of_unlisted (unlisted : deviceStem (· = ' ') letters ∈ unlistedDevices) :
    isWindowsReserved (beforeDot letters) = false := by
  obtain ⟨-, last, ends, -, notSpace⟩ := unlistedDevices_cases unlisted
  rw [isWindowsReserved_eq, deviceStem_eq ends notSpace]
  exact Bool.not_eq_true _ ▸ fun listed => (isListed_cases listed).2.1 unlisted

/-- What is not marked is a device when it is one that is not on the list. -/
theorem isReservedDevice_of_unmarked (unmarked : isWindowsReserved (beforeDot letters) = false) :
    isReservedDevice letters = true ↔ deviceStem (· = ' ') letters ∈ unlistedDevices := by
  rw [isReservedDevice_iff, or_iff_right]
  intro listed
  obtain ⟨-, -, last, ends, -, notSpace⟩ := isListed_cases listed
  rw [isWindowsReserved_eq, deviceStem_eq ends notSpace, listed] at unmarked
  cases unmarked

theorem map_toUpper_neutralize {target : List Char}
    (plain : ∀ letter ∈ target, letter ∉ '_' :: reservedPunctuation) (letters : List Char) :
    (letters.map neutralize).map Char.toUpper = target ↔ letters.map Char.toUpper = target := by
  induction letters generalizing target with
  | nil => rfl
  | cons first others inductionHypothesis =>
    cases target with
    | nil => simp
    | cons wanted rest =>
      have isPlain := plain wanted mem_cons_self
      have same : (neutralize first).toUpper = wanted ↔ first.toUpper = wanted := by
        have marked : reservedPunctuation.all (fun letter =>
            decide (letter.toUpper = wanted) == decide ('_'.toUpper = wanted)) = true := by
          refine all_eq_true.mpr fun letter reserved => ?_
          have unchanged : reservedPunctuation.all (fun letter => letter.toUpper == letter) =
              true := by decide
          have same := eq_of_beq (all_eq_true.mp unchanged letter reserved)
          have notLetter : letter ≠ wanted := fun same =>
            isPlain (same ▸ mem_cons_of_mem _ reserved)
          have notMark : '_'.toUpper ≠ wanted := fun same => isPlain (same ▸ mem_cons_self)
          rw [same, decide_eq_false notLetter, decide_eq_false notMark]
          rfl
        have keeps := neutralize_keeps (fun letter => letter.toUpper = wanted) marked first
        exact decide_eq_decide.mp keeps
      have later := inductionHypothesis fun letter member =>
        plain letter (mem_cons_of_mem _ member)
      simp only [map_cons, cons.injEq]
      rw [same, later]

theorem beforeDot_neutralize (letters : List Char) :
    beforeDot (letters.map neutralize) = (beforeDot letters).map neutralize := by
  have same : ((fun letter : Char => decide (letter ≠ '.')) ∘ neutralize) =
      fun letter => decide (letter ≠ '.') :=
    funext (neutralize_keeps (fun letter => letter ≠ '.') (by decide))
  rw [beforeDot, takeWhile_map, same, beforeDot]

theorem rdropWhile_neutralize (letters : List Char) :
    (letters.map neutralize).rdropWhile (· = ' ') =
      (letters.rdropWhile (· = ' ')).map neutralize := by
  have same : ((fun letter : Char => decide (letter = ' ')) ∘ neutralize) =
      fun letter => decide (letter = ' ') :=
    funext (neutralize_keeps (fun letter => letter = ' ') (by decide))
  rw [List.rdropWhile, ← map_reverse, dropWhile_map, same, ← map_reverse,
    List.rdropWhile]

/-- Reserved punctuation makes no difference to the devices that are not on the list. -/
theorem unlisted_neutralize (letters : List Char) :
    deviceStem (· = ' ') (letters.map neutralize) ∈ unlistedDevices ↔
      deviceStem (· = ' ') letters ∈ unlistedDevices := by
  have each : unlistedDevices.all (fun device =>
      device.all fun letter => !('_' :: reservedPunctuation).contains letter) = true := by decide
  have plain : ∀ device ∈ unlistedDevices, ∀ letter ∈ device,
      letter ∉ '_' :: reservedPunctuation := by
    intro device member letter within
    have free := all_eq_true.mp (all_eq_true.mp each device member) letter within
    simpa only [Bool.not_eq_true', contains_eq_mem, decide_eq_false_iff_not] using free
  have stem : deviceStem (· = ' ') (letters.map neutralize) =
      (((beforeDot letters).rdropWhile (· = ' ')).map neutralize).map Char.toUpper := by
    rw [deviceStem, beforeDot_neutralize, rdropWhile_neutralize]
  rw [stem]
  constructor
  · intro member
    have same := (map_toUpper_neutralize (plain _ member) _).mp rfl
    rw [deviceStem, same]
    exact member
  · intro member
    have same := (map_toUpper_neutralize (plain _ member) _).mpr rfl
    rw [same]
    exact member

/-! ### What the sanitizer returns -/

/-- The three ways a name comes out. -/
inductive Comes (base : List Char) : List Char → Prop
  | received (nothing : base = []) : Comes base "received.bin".toList
  | marked (something : base ≠ [])
      (listed : isWindowsReserved (beforeDot (base.map neutralize)) = true) :
      Comes base ('_' :: base.map neutralize)
  | kept (something : base ≠ [])
      (unlisted : isWindowsReserved (beforeDot (base.map neutralize)) = false) :
      Comes base (base.map neutralize)

theorem comes_sanitizeName :
    Comes (strippedBase raw) (sanitizeName raw).toList := by
  rw [sanitizeName_eq]
  split
  · rename_i nothing
    exact Comes.received nothing
  · rename_i something
    split
    · rename_i listed
      rw [String.toList_ofList]
      exact Comes.marked something listed
    · rename_i unlisted
      rw [String.toList_ofList]
      exact Comes.kept something (Bool.not_eq_true _ ▸ unlisted)

theorem noControl_received : ∀ letter ∈ "received.bin".toList, isControl letter = false := by
  have free : "received.bin".toList.all (fun letter => !isControl letter) = true := by decide
  intro letter member
  exact Bool.not_eq_true' _ ▸ all_eq_true.mp free letter member

theorem settled_received : Settled "received.bin".toList where
  notEmpty := by decide
  oneComponent letter member := by
    have free : "received.bin".toList.all
        (fun letter => !(letter = '/' || letter = '\\')) = true := by decide
    exact Bool.not_eq_true' _ ▸ all_eq_true.mp free letter member
  keepsStart first isFirst := by
    cases isFirst
    decide
  keepsEnd last isLast := by
    cases isLast
    decide
  noPunctuation letter member := by
    have free : "received.bin".toList.all
        (fun letter => !reservedPunctuation.contains letter) = true := by decide
    simpa only [Bool.not_eq_true', contains_eq_mem, decide_eq_false_iff_not] using
      all_eq_true.mp free letter member
  unlisted := by decide

theorem settled_of_comes {raw : String} (comes : Comes (strippedBase raw) letters) :
    Settled letters := by
  have noSeparator : ∀ letter ∈ (strippedBase raw).map neutralize,
      (letter = '/' || letter = '\\') = false := by
    intro letter member
    obtain ⟨original, within, rfl⟩ := mem_map.mp member
    rw [isSeparator_neutralize]
    exact lastComponent_noSeparator raw original (mem_of_mem_trimMatches within)
  have noPunctuation : ∀ letter ∈ (strippedBase raw).map neutralize,
      letter ∉ reservedPunctuation := by
    intro letter member
    obtain ⟨original, -, rfl⟩ := mem_map.mp member
    exact neutralize_notMem original
  have keepsEnd : ∀ last, ((strippedBase raw).map neutralize).getLast? = some last →
      isTrimmed last = false := by
    intro last ends
    rw [getLast?_map] at ends
    obtain ⟨original, isLast, rfl⟩ := Option.map_eq_some_iff.mp ends
    rw [isTrimmed_neutralize]
    exact isTrimmed_getLast isLast
  cases comes with
  | received => exact settled_received
  | marked something listed =>
    refine ⟨cons_ne_nil _ _, ?_, ?_, ?_, ?_, isWindowsReserved_mark _⟩
    · intro letter member
      rcases mem_cons.mp member with rfl | within
      · decide
      · exact noSeparator letter within
    · intro first isFirst
      cases isFirst
      decide
    · intro last ends
      obtain ⟨first, others, mapped⟩ := exists_cons_of_ne_nil
        (fun empty => something (map_eq_nil_iff.mp empty))
      rw [mapped, getLast?_cons_cons, ← mapped] at ends
      exact keepsEnd last ends
    · intro letter member
      rcases mem_cons.mp member with rfl | within
      · decide
      · exact noPunctuation letter within
  | kept something unlisted =>
    refine ⟨fun empty => something (map_eq_nil_iff.mp empty), noSeparator, ?_, keepsEnd,
      noPunctuation, unlisted⟩
    intro first isFirst
    obtain ⟨head, others, base⟩ := exists_cons_of_ne_nil something
    rw [base] at isFirst
    cases isFirst
    rw [isTrimmed_neutralize]
    exact trimMatches_head base

/-- What is safe once stays as it is. -/
theorem sanitizeBytes_again (raw : List UInt8) :
    sanitizeBytes (utf8Bytes (sanitizeBytes raw).toList) = sanitizeBytes raw := by
  have settled := settled_of_comes (comes_sanitizeName (fromUtf8Lossy raw))
  have again := sanitizeName_of_settled settled
  rw [String.ofList_toList] at again
  rw [sanitizeBytes, fromUtf8Lossy_utf8Bytes]
  exact again

theorem noControl_iff (base : List Char) :
    (∀ letter ∈ base.map neutralize, isControl letter = false) ↔
      ∀ letter ∈ base, isControl letter = false := by
  simp only [forall_mem_map, isControl_neutralize]

/-- The name is safe if and only if no control character stands in the middle of what was
announced and it is none of the devices that are not on the list. -/
theorem safeName_sanitizeBytes_iff (raw : List UInt8) :
    SafeName (sanitizeBytes raw) ∧
        sanitizeBytes (utf8Bytes (sanitizeBytes raw).toList) = sanitizeBytes raw ↔
      (∀ letter ∈ strippedBase (fromUtf8Lossy raw), isControl letter = false) ∧
        deviceStem (· = ' ') (strippedBase (fromUtf8Lossy raw)) ∉ unlistedDevices := by
  have comes := comes_sanitizeName (fromUtf8Lossy raw)
  have settled := settled_of_comes comes
  have controls : (∀ letter ∈ (sanitizeBytes raw).toList, isControl letter = false) ↔
      ∀ letter ∈ strippedBase (fromUtf8Lossy raw), isControl letter = false := by
    rw [sanitizeBytes]
    generalize (sanitizeName (fromUtf8Lossy raw)).toList = letters at comes
    cases comes with
    | received nothing =>
      rw [nothing]
      exact iff_of_true noControl_received (by simp)
    | marked something listed =>
      rw [forall_mem_cons, noControl_iff]
      exact and_iff_right (by decide)
    | kept something unlisted => exact noControl_iff _
  have devices : isReservedDevice (sanitizeBytes raw).toList = false ↔
      deviceStem (· = ' ') (strippedBase (fromUtf8Lossy raw)) ∉ unlistedDevices := by
    rw [sanitizeBytes]
    generalize (sanitizeName (fromUtf8Lossy raw)).toList = letters at comes
    cases comes with
    | received nothing =>
      rw [nothing]
      exact iff_of_true (by decide) (by decide)
    | marked something listed =>
      refine iff_of_true ?_ fun unlisted => ?_
      · rw [isReservedDevice, isWin32Device_mark, Bool.false_and]
      · rw [isWindowsReserved_of_unlisted ((unlisted_neutralize _).mpr unlisted)] at listed
        cases listed
    | kept something unlisted =>
      rw [← unlisted_neutralize, ← isReservedDevice_of_unmarked unlisted, Bool.not_eq_true]
  constructor
  · rintro ⟨safe, -⟩
    exact ⟨controls.mp safe.noControl, devices.mp safe.noDevice⟩
  · rintro ⟨noControl, noDevice⟩
    refine ⟨⟨settled.notEmpty, ⟨?_, ?_⟩, settled.noPunctuation, controls.mpr noControl, ?_,
      ⟨?_, ?_⟩, devices.mpr noDevice⟩, sanitizeBytes_again raw⟩
    · intro member
      cases settled.oneComponent _ member
    · intro member
      cases settled.oneComponent _ member
    · intro starts
      cases settled.keepsStart _ starts
    · intro ends
      cases settled.keepsEnd _ ends
    · intro ends
      cases settled.keepsEnd _ ends

/-- A bell in the middle of a name stays. -/
theorem not_safeName_bell : ¬ SafeName (sanitizeBytes [97, 7, 98]) := by
  intro safe
  have bell : Char.ofNat 7 ∈ (sanitizeBytes [97, 7, 98]).toList := by decide
  cases safe.noControl _ bell

end Oryxis.Zmodem

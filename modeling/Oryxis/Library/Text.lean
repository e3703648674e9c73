/-
This file is the part of a standard library that trims text, compares it and splits it, into parts
and into lines.
-/

import Mathlib.Data.List.DropRight

namespace Oryxis.Library

open List

/-- The white space of Unicode. -/
def isWhitespace (c : Char) : Bool :=
  (0x09 ≤ c.toNat && c.toNat ≤ 0x0d) || c.toNat = 0x20 || c.toNat = 0x85 || c.toNat = 0xa0 ||
    c.toNat = 0x1680 || (0x2000 ≤ c.toNat && c.toNat ≤ 0x200a) || c.toNat = 0x2028 ||
    c.toNat = 0x2029 || c.toNat = 0x202f || c.toNat = 0x205f || c.toNat = 0x3000

def trimEnd (text : List Char) : List Char := text.rdropWhile isWhitespace

/-- A string without the white space at both ends. -/
def trim (text : String) : String :=
  String.ofList (trimEnd (text.toList.dropWhile isWhitespace))

/-- Letters without the white space at both ends. -/
def trimmed (text : List Char) : List Char := trimEnd (text.dropWhile isWhitespace)

variable {text : List Char}

theorem trimmed_of_notMem (none : ∀ c ∈ text, isWhitespace c = false) :
    trimmed text = text := by
  have front : text.dropWhile isWhitespace = text := by
    cases text with
    | nil => rfl
    | cons letter text =>
      exact dropWhile_cons_of_neg (by rw [none letter mem_cons_self]; decide)
  rw [trimmed, front, trimEnd]
  refine rdropWhile_eq_self_iff.mpr fun nonempty => ?_
  rw [none _ (getLast_mem nonempty)]
  decide

/-- A text has no white space to trim where neither end is white space. -/
theorem trimmed_eq_self_iff :
    trimmed text = text ↔
      (∀ c ∈ text.head?, isWhitespace c = false) ∧ ∀ c ∈ text.getLast?, isWhitespace c = false := by
  constructor
  · intro same
    have front : text.dropWhile isWhitespace = text := by
      refine (dropWhile_suffix isWhitespace).eq_of_length_le ?_
      calc text.length = (trimmed text).length := by rw [same]
        _ ≤ (text.dropWhile isWhitespace).length :=
          (List.rdropWhile_prefix isWhitespace _).length_le
    rw [trimmed, front] at same
    constructor
    · intro c first
      cases text with
      | nil => cases first
      | cons letter text =>
        cases first
        exact Bool.eq_false_iff.mpr (dropWhile_eq_self_iff.mp front (Nat.succ_pos _))
    · intro c last
      obtain ⟨nonempty, rfl⟩ := mem_getLast?_eq_getLast last
      exact Bool.eq_false_iff.mpr (rdropWhile_eq_self_iff.mp same nonempty)
  · rintro ⟨first, last⟩
    have front : text.dropWhile isWhitespace = text := by
      refine dropWhile_eq_self_iff.mpr fun nonempty => ?_
      rw [first _ (head?_eq_getElem?.trans (getElem?_eq_getElem nonempty))]
      exact Bool.false_ne_true
    rw [trimmed, front]
    refine rdropWhile_eq_self_iff.mpr fun nonempty => ?_
    rw [last _ (getLast?_eq_getLast_of_ne_nil nonempty)]
    exact Bool.false_ne_true

theorem trimmed_trimmed (text : List Char) : trimmed (trimmed text) = trimmed text := by
  refine trimmed_eq_self_iff.mpr ⟨fun c first => ?_, fun c last => ?_⟩
  · obtain ⟨rest, whole⟩ := rdropWhile_prefix isWhitespace (text.dropWhile isWhitespace)
    have front : (text.dropWhile isWhitespace).head? = some c := by
      rw [← whole, head?_append, show (List.rdropWhile _ _).head? = some c from first,
        Option.some_or]
    have word := head?_dropWhile_not isWhitespace text
    rw [front] at word
    exact word
  · obtain ⟨nonempty, rfl⟩ := mem_getLast?_eq_getLast last
    exact Bool.eq_false_iff.mpr (rdropWhile_last_not isWhitespace _ nonempty)

/-- Between parts that have nothing to trim nothing is trimmed. -/
theorem trimmed_intercalate (separator : List Char) {parts : List (List Char)}
    (plain : ∀ part ∈ parts, part ≠ [] ∧ trimmed part = part) :
    trimmed (List.intercalate separator parts) = List.intercalate separator parts := by
  rw [trimmed_eq_self_iff]
  induction parts with
  | nil =>
    exact ⟨fun c none => absurd none (Option.not_mem_none c),
      fun c none => absurd none (Option.not_mem_none c)⟩
  | cons part parts inductionHypothesis =>
    obtain ⟨⟨nonempty, own⟩, others⟩ := forall_mem_cons.mp plain
    obtain ⟨front, back⟩ := trimmed_eq_self_iff.mp own
    cases parts with
    | nil =>
      rw [intercalate_singleton]
      exact ⟨front, back⟩
    | cons next parts =>
      obtain ⟨_, backOthers⟩ := inductionHypothesis others
      have rest : List.intercalate separator (next :: parts) ≠ [] := by
        have some := (forall_mem_cons.mp others).1.1
        cases parts with
        | nil => rwa [intercalate_singleton]
        | cons later parts =>
          rw [intercalate_cons_cons, append_assoc]
          exact append_ne_nil_of_left_ne_nil some _
      rw [intercalate_cons_cons, append_assoc, head?_append_of_ne_nil _ nonempty,
        ← append_assoc, getLast?_append_of_ne_nil _ rest]
      exact ⟨front, backOthers⟩

def eqIgnoreAsciiCase (first second : List Char) : Bool :=
  first.map Char.toLower = second.map Char.toLower

/-! ### Splitting -/

/-- What stands before the first separator and behind it. -/
def splitOnce (separator : Char) : List Char → Option (List Char × List Char)
  | [] => none
  | letter :: text =>
    if letter = separator then some ([], text)
    else (splitOnce separator text).map fun parts => (letter :: parts.1, parts.2)

variable {separator : Char}

theorem splitOnce_eq_none_iff :
    splitOnce separator text = none ↔ separator ∉ text := by
  induction text with
  | nil => exact iff_of_true rfl not_mem_nil
  | cons letter text inductionHypothesis =>
    rw [splitOnce]
    split_ifs with here
    · exact iff_of_false (by intro none; cases none) fun absent =>
        absent (here ▸ mem_cons_self)
    · rw [Option.map_eq_none_iff, inductionHypothesis, mem_cons, not_or]
      exact ⟨fun later => ⟨Ne.symm here, later⟩, And.right⟩

variable {behind : List Char}

theorem splitOnce_eq_some_iff {before : List Char} :
    splitOnce separator text = some (before, behind) ↔
      text = before ++ separator :: behind ∧ separator ∉ before := by
  induction text generalizing before with
  | nil =>
    refine iff_of_false (by intro none; cases none) fun ⟨whole, _⟩ => ?_
    exact append_ne_nil_of_right_ne_nil _ (cons_ne_nil _ _) whole.symm
  | cons letter text inductionHypothesis =>
    rw [splitOnce]
    split_ifs with here
    · constructor
      · intro same
        cases same
        exact ⟨congrArg (· :: behind) here, not_mem_nil⟩
      · rintro ⟨whole, absent⟩
        cases before with
        | nil =>
          cases whole
          rfl
        | cons head before =>
          cases whole
          exact absurd (here ▸ mem_cons_self) absent
    · constructor
      · intro found
        obtain ⟨parts, isParts, same⟩ := Option.map_eq_some_iff.mp found
        cases same
        obtain ⟨whole, absent⟩ := inductionHypothesis.mp isParts
        refine ⟨congrArg (letter :: ·) whole, ?_⟩
        rw [mem_cons, not_or]
        exact ⟨Ne.symm here, absent⟩
      · rintro ⟨whole, absent⟩
        cases before with
        | nil =>
          cases whole
          exact absurd rfl here
        | cons head before =>
          cases whole
          refine Option.map_eq_some_iff.mpr ⟨(before, behind), ?_, rfl⟩
          exact inductionHypothesis.mpr
            ⟨rfl, fun member => absent (mem_cons_of_mem _ member)⟩

/-- At most so many parts, where the last one is all that is left. -/
def splitn : Nat → Char → List Char → List (List Char)
  | 0, _, _ => []
  | 1, _, text => [text]
  | parts + 2, separator, text =>
    match splitOnce separator text with
    | none => [text]
    | some (first, others) => first :: splitn (parts + 1) separator others

theorem length_splitn_le (parts : Nat) (separator : Char) (text : List Char) :
    (splitn parts separator text).length ≤ parts := by
  induction parts, separator, text using splitn.induct with
  | case1 => exact Nat.le_refl 0
  | case2 => exact Nat.le_refl 1
  | case3 parts separator text unsplit =>
    rw [splitn, unsplit]
    exact Nat.succ_le_succ (Nat.zero_le _)
  | case4 parts separator text first others isSplit inductionHypothesis =>
    rw [splitn, isSplit]
    exact Nat.succ_le_succ inductionHypothesis

theorem eq_of_splitn_three {first second third : List Char}
    (parts : splitn 3 separator text = [first, second, third]) :
    text = first ++ separator :: (second ++ separator :: third) ∧ separator ∉ first ∧
      separator ∉ second := by
  rw [splitn] at parts
  split at parts
  · cases parts
  · rename_i before behind isSplit
    rw [splitn] at parts
    split at parts
    · cases parts
    · rename_i inner last isInner
      rw [splitn] at parts
      cases parts
      obtain ⟨rfl, noneFirst⟩ := splitOnce_eq_some_iff.mp isSplit
      obtain ⟨rfl, noneSecond⟩ := splitOnce_eq_some_iff.mp isInner
      exact ⟨rfl, noneFirst, noneSecond⟩

/-- What stands before the last separator and behind it. -/
def rsplitOnce (separator : Char) : List Char → Option (List Char × List Char)
  | [] => none
  | letter :: text =>
    match rsplitOnce separator text with
    | some parts => some (letter :: parts.1, parts.2)
    | none => if letter = separator then some ([], text) else none

theorem rsplitOnce_eq_none_iff :
    rsplitOnce separator text = none ↔ separator ∉ text := by
  induction text with
  | nil => exact iff_of_true rfl not_mem_nil
  | cons letter text inductionHypothesis =>
    rw [rsplitOnce, mem_cons, not_or, ← inductionHypothesis]
    cases rsplitOnce separator text with
    | some parts =>
      exact iff_of_false (by intro none; cases none) fun none => Option.some_ne_none _ none.2
    | none =>
      dsimp only
      split_ifs with here
      · exact iff_of_false (by intro none; cases none) fun none => none.1 here.symm
      · exact iff_of_true rfl ⟨Ne.symm here, rfl⟩

theorem eq_append_of_rsplitOnce {before : List Char}
    (split : rsplitOnce separator text = some (before, behind)) :
    text = before ++ separator :: behind ∧ separator ∉ behind := by
  induction text generalizing before with
  | nil => cases split
  | cons letter text inductionHypothesis =>
    rw [rsplitOnce] at split
    cases later : rsplitOnce separator text with
    | some parts =>
      rw [later] at split
      cases split
      obtain ⟨whole, absent⟩ := inductionHypothesis later
      exact ⟨congrArg (letter :: ·) whole, absent⟩
    | none =>
      simp only [later] at split
      split_ifs at split with here
      cases split
      exact ⟨congrArg (· :: behind) here, rsplitOnce_eq_none_iff.mp later⟩

theorem rsplitOnce_append (before : List Char) (absent : separator ∉ behind) :
    rsplitOnce separator (before ++ separator :: behind) = some (before, behind) := by
  induction before with
  | nil =>
    rw [nil_append, rsplitOnce, rsplitOnce_eq_none_iff.mpr absent]
    exact if_pos rfl
  | cons letter before inductionHypothesis =>
    rw [cons_append, rsplitOnce, inductionHypothesis]

/-- What stands behind a beginning. -/
def stripPrefix (beginning text : List Char) : Option (List Char) :=
  if beginning.isPrefixOf text then some (text.drop beginning.length) else none

theorem stripPrefix_append (beginning text : List Char) :
    stripPrefix beginning (beginning ++ text) = some text := by
  rw [stripPrefix, if_pos (List.isPrefixOf_iff_prefix.mpr (prefix_append _ _)),
    drop_left]

/-! ### Lines -/

/-- The pieces up to each line feed, and whether there was one. -/
def rawLines : List Char → List (List Char × Bool)
  | [] => []
  | letter :: rest =>
    if letter = '\n' then ([], true) :: rawLines rest
    else
      match rawLines rest with
      | [] => [([letter], false)]
      | (line, ended) :: more => (letter :: line, ended) :: more

def stripCr (line : List Char) : List Char :=
  if line.getLast? = some '\r' then line.dropLast else line

/-- `str::lines`: a carriage return goes with the line feed behind it. -/
def lines (input : List Char) : List (List Char) :=
  (rawLines input).map fun piece => if piece.2 then stripCr piece.1 else piece.1

end Oryxis.Library

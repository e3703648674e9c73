/-
This file is the glob patterns of the SFTP console, over one component of a path.

A pattern is read as tokens, and describes the names that can be cut into one part for each
token. The matcher goes along the pattern and the name and keeps the last star; it finds
every name without a slash that the pattern describes, a leading dot aside, which takes a
dot. A name with a slash it may miss, but it never lets a wildcard stand for one.
-/

import Oryxis.Library.Glob

namespace Oryxis.Shell

open Library
open List hiding set

/-! ### The language of a pattern -/

/-- A letter of a class, or a range of them. -/
inductive ClassItem where
  | one (c : Char)
  | range (lo hi : Char)
  deriving DecidableEq

def ClassItem.holds (c : Char) : ClassItem → Bool
  | one d => d = c
  | range lo hi => lo ≤ c ∧ c ≤ hi

structure CharClass where
  negated : Bool
  items : List ClassItem
  deriving DecidableEq

def CharClass.holds (cls : CharClass) (c : Char) : Bool :=
  cls.items.any (ClassItem.holds c) != cls.negated

inductive Token where
  | literal (c : Char)
  | any
  | run
  | cls (cls : CharClass)
  deriving DecidableEq

def Token.IsWildcard (token : Token) : Prop := ∀ c, token ≠ .literal c

/-- The part of a name that a token stands for. -/
def Token.Means : Token → List Char → Prop
  | literal c, part => part = [c]
  | any, part => part.length = 1
  | run, _ => True
  | cls set, part => ∃ c, part = [c] ∧ set.holds c = true

/-- The end of a range, behind its beginning. A dash at the end of a class is a letter. -/
def rangeEnd : List Char → Option (Char × List Char)
  | '-' :: last :: others => if last ≠ ']' then some (last, others) else none
  | _ => none

theorem length_of_rangeEnd {rest others : List Char} {last : Char}
    (isRange : rangeEnd rest = some (last, others)) : others.length < rest.length := by
  unfold rangeEnd at isRange
  split at isRange
  · split at isRange
    · cases isRange
      exact Nat.lt_add_of_pos_right (Nat.succ_pos 1)
    · cases isRange
  · cases isRange

/-- The letters and ranges up to the closing bracket. One in front is a letter. -/
def readItems (first : Bool) : List Char → Option (List ClassItem × List Char)
  | [] => none
  | head :: rest =>
    if head = ']' ∧ first = false then some ([], rest)
    else
      match isRange : rangeEnd rest with
      | some (last, others) =>
        (readItems false others).map fun later => (.range head last :: later.1, later.2)
      | none => (readItems false rest).map fun later => (.one head :: later.1, later.2)
termination_by rest => rest.length
decreasing_by
  · have := length_of_rangeEnd isRange
    simp only [length_cons]
    omega
  · exact Nat.lt_succ_self _

/-- The class behind a bracket, if it is closed. -/
def readClass (rest : List Char) : Option (CharClass × List Char) :=
  match rest with
  | '!' :: items | '^' :: items => (readItems true items).map fun read => (⟨true, read.1⟩, read.2)
  | items => (readItems true items).map fun read => (⟨false, read.1⟩, read.2)

/-- The first token of a pattern. -/
def readToken : List Char → Option (Token × List Char)
  | [] => none
  | '*' :: rest => some (.run, rest)
  | '?' :: rest => some (.any, rest)
  | '[' :: rest =>
    match readClass rest with
    | some (set, next) => some (.cls set, next)
    | none => some (.literal '[', rest)
  | '\\' :: next :: others => some (.literal next, others)
  | head :: rest => some (.literal head, rest)

theorem length_of_readItems {first : Bool} {rest next : List Char} {items : List ClassItem}
    (ends : readItems first rest = some (items, next)) : next.length < rest.length := by
  fun_induction readItems first rest generalizing items with
  | case1 => cases ends
  | case2 first head rest closes =>
    cases ends
    exact Nat.lt_succ_self _
  | case3 first head rest opens last others isRange inductionHypothesis =>
    have := length_of_rangeEnd isRange
    obtain ⟨later, isLater, same⟩ := Option.map_eq_some_iff.mp ends
    cases same
    have := inductionHypothesis isLater
    rw [length_cons]
    omega
  | case4 first head rest opens isLetter inductionHypothesis =>
    obtain ⟨later, isLater, same⟩ := Option.map_eq_some_iff.mp ends
    cases same
    exact Nat.lt_succ_of_lt (inductionHypothesis isLater)

theorem length_of_readClass {rest next : List Char} {set : CharClass}
    (ends : readClass rest = some (set, next)) : next.length < rest.length := by
  unfold readClass at ends
  split at ends
  all_goals
    obtain ⟨read, isRead, same⟩ := Option.map_eq_some_iff.mp ends
    cases same
  · exact Nat.lt_succ_of_lt (length_of_readItems isRead)
  · exact Nat.lt_succ_of_lt (length_of_readItems isRead)
  · exact length_of_readItems isRead

theorem length_of_readToken {pattern next : List Char} {token : Token}
    (read : readToken pattern = some (token, next)) : next.length < pattern.length := by
  unfold readToken at read
  split at read
  · cases read
  · cases read
    exact Nat.lt_succ_self _
  · cases read
    exact Nat.lt_succ_self _
  · split at read
    · rename_i ends
      cases read
      exact Nat.lt_succ_of_lt (length_of_readClass ends)
    · cases read
      exact Nat.lt_succ_self _
  · cases read
    rw [length_cons, length_cons]
    omega
  · cases read
    exact Nat.lt_succ_self _

/-- A pattern, read as a sequence of tokens. -/
def readTokens (pattern : List Char) : List Token :=
  match read : readToken pattern with
  | none => []
  | some (token, next) => token :: readTokens next
termination_by pattern.length
decreasing_by exact length_of_readToken read

/-- The name can be cut into one part for each token. -/
def InLanguage (tokens : List Token) (name : List Char) : Prop :=
  ∃ parts : List (List Char), parts.flatten = name ∧ List.Forall₂ Token.Means tokens parts

/-- The same, with no slash in the part of a wildcard. -/
def InLanguageApart (tokens : List Token) (name : List Char) : Prop :=
  ∃ parts : List (List Char), parts.flatten = name ∧
    List.Forall₂ (fun token part => token.Means part ∧ (token.IsWildcard → '/' ∉ part))
      tokens parts

/-! ### The matcher -/

/-- Goes through a class for a letter, and gives what is behind it. Nothing, where the class does
not end. -/
def matchItems (negated : Bool) (c : Char) (matched first : Bool) :
    List Char → Option (Bool × List Char)
  | [] => none
  | head :: rest =>
    -- A bracket in front is a letter.
    if head = ']' ∧ first = false then some (matched != negated, rest)
    else
      match isRange : rangeEnd rest with
      | some (last, others) =>
        matchItems negated c (matched || decide (head ≤ c ∧ c ≤ last)) false others
      | none => matchItems negated c (matched || decide (head = c)) false rest
termination_by rest => rest.length
decreasing_by
  · have := length_of_rangeEnd isRange
    simp only [length_cons]
    omega
  · exact Nat.lt_succ_self _

/-- A class behind its bracket. -/
def matchClass (rest : List Char) (c : Char) : Option (Bool × List Char) :=
  match rest with
  | '!' :: items | '^' :: items => matchItems true c false true items
  | items => matchItems false c false true items

/-- What the head of a pattern does with a letter of the name. -/
inductive Arm where
  | star (rest : List Char)
  | takes (rest : List Char)
  | fails

def arm (pattern : List Char) (c : Char) : Arm :=
  match pattern with
  | [] => .fails
  | head :: rest =>
    if head = '*' ∧ c ≠ '/' then .star rest
    else if head = '?' ∧ c ≠ '/' then .takes rest
    else if head = '[' ∧ c ≠ '/' then
      match matchClass rest c with
      | some (matched, next) => if matched then .takes next else .fails
      -- A bracket that is not closed is a letter.
      | none => if head = c then .takes rest else .fails
    else if head = '\\' ∧ rest ≠ [] then
      if rest.head? = some c then .takes rest.tail else .fails
    else if head = c then .takes rest
    else .fails

/-- Whether a token takes a letter. -/
def Token.takes (token : Token) (c : Char) : Bool :=
  match token with
  | literal d => d = c
  | any => c ≠ '/'
  | run => false
  | cls set => c ≠ '/' ∧ set.holds c

theorem readItems_of_range {first : Bool} {head last : Char} {rest others : List Char}
    (opens : ¬ (head = ']' ∧ first = false)) (isRange : rangeEnd rest = some (last, others)) :
    readItems first (head :: rest) =
      (readItems false others).map fun later => (.range head last :: later.1, later.2) := by
  rw [readItems, if_neg opens]
  split
  · rename_i found
    rw [isRange] at found
    cases found
    rfl
  · rename_i found
    rw [isRange] at found
    cases found

theorem readItems_of_letter {first : Bool} {head : Char} {rest : List Char}
    (opens : ¬ (head = ']' ∧ first = false)) (isLetter : rangeEnd rest = none) :
    readItems first (head :: rest) =
      (readItems false rest).map fun later => (.one head :: later.1, later.2) := by
  rw [readItems, if_neg opens]
  split
  · rename_i found
    rw [isLetter] at found
    cases found
  · rfl

/-- Going through a class for a letter is reading it and asking it. -/
theorem matchItems_eq (negated : Bool) (c : Char) (matched first : Bool) (rest : List Char) :
    matchItems negated c matched first rest = (readItems first rest).map fun read =>
      ((matched || read.1.any (ClassItem.holds c)) != negated, read.2) := by
  fun_induction matchItems negated c matched first rest with
  | case1 => rw [readItems]; rfl
  | case2 matched first head rest closes =>
    rw [readItems, if_pos closes, Option.map_some, any_nil, Bool.or_false]
  | case3 matched first head rest opens last others isRange inductionHypothesis =>
    rw [inductionHypothesis, readItems_of_range opens isRange, Option.map_map]
    refine congrArg (Option.map · _) (funext fun read => ?_)
    rw [Function.comp_apply, any_cons, ← Bool.or_assoc]
    simp only [ClassItem.holds, Bool.decide_and]
  | case4 matched first head rest opens isLetter inductionHypothesis =>
    rw [inductionHypothesis, readItems_of_letter opens isLetter, Option.map_map]
    refine congrArg (Option.map · _) (funext fun read => ?_)
    rw [Function.comp_apply, any_cons, ← Bool.or_assoc]
    rfl

theorem matchClass_eq (rest : List Char) (c : Char) :
    matchClass rest c = (readClass rest).map fun read => (read.1.holds c, read.2) := by
  unfold matchClass readClass
  split
  all_goals
    rw [matchItems_eq, Option.map_map]
    refine congrArg (Option.map · _) (funext fun read => ?_)
    rw [Function.comp_apply, CharClass.holds, Bool.false_or]

theorem readToken_letter {head : Char} {rest : List Char} (notStar : head ≠ '*')
    (notAny : head ≠ '?') (notClass : head ≠ '[') (notEscape : head ≠ '\\') :
    readToken (head :: rest) = some (.literal head, rest) := by
  unfold readToken
  split
  · rename_i same
    cases same
  · rename_i same
    cases same
    exact absurd rfl notStar
  · rename_i same
    cases same
    exact absurd rfl notAny
  · rename_i same
    cases same
    exact absurd rfl notClass
  · rename_i same
    cases same
    exact absurd rfl notEscape
  · rename_i same
    cases same
    rfl

/-- What the head of a pattern does with a letter, by its first token. -/
def Token.arm (next : List Char) (c : Char) : Token → Arm
  | .run => if c ≠ '/' then .star next else .fails
  | token => if token.takes c then .takes next else .fails

theorem arm_of_readToken {pattern next : List Char} {token : Token}
    (read : readToken pattern = some (token, next)) (c : Char) :
    arm pattern c = token.arm next c := by
  cases pattern with
  | nil => cases read
  | cons head rest =>
    by_cases isStar : head = '*'
    · subst isStar
      cases read
      by_cases isSlash : c = '/' <;> simp [Shell.arm, Token.arm, isSlash]
    by_cases isAny : head = '?'
    · subst isAny
      cases read
      by_cases isSlash : c = '/' <;> simp [Shell.arm, Token.arm, Token.takes, isSlash]
    by_cases isClass : head = '['
    · subst isClass
      rw [readToken] at read
      cases isRead : readClass rest with
      | none =>
        have unclosed : matchClass rest c = none := by rw [matchClass_eq, isRead]; rfl
        rw [isRead] at read
        cases read
        by_cases isSlash : c = '/'
        · simp [Shell.arm, Token.arm, Token.takes, isSlash]
        · simp [Shell.arm, Token.arm, Token.takes, isSlash, unclosed]
      | some found =>
        rw [isRead] at read
        cases read
        have closed : matchClass rest c = some (found.1.holds c, found.2) := by
          rw [matchClass_eq, isRead]
          rfl
        by_cases isSlash : c = '/'
        · simp [Shell.arm, Token.arm, Token.takes, isSlash]
        · simp [Shell.arm, Token.arm, Token.takes, isSlash, closed]
    by_cases isEscape : head = '\\'
    · subst isEscape
      cases rest <;> cases read <;> simp [Shell.arm, Token.arm, Token.takes]
    · rw [readToken_letter isStar isAny isClass isEscape] at read
      cases read
      simp [Shell.arm, Token.arm, Token.takes, isStar, isAny, isClass, isEscape]

theorem readToken_eq_none_iff {pattern : List Char} : readToken pattern = none ↔ pattern = [] := by
  constructor
  · intro read
    unfold readToken at read
    split at read
    · rfl
    · cases read
    · cases read
    · split at read <;> cases read
    · cases read
    · cases read
  · rintro rfl
    rfl

theorem arm_eq_star {pattern next : List Char} {c : Char} (goes : arm pattern c = .star next) :
    readToken pattern = some (.run, next) ∧ c ≠ '/' := by
  cases read : readToken pattern with
  | none =>
    rw [readToken_eq_none_iff.mp read] at goes
    cases goes
  | some found =>
    obtain ⟨token, behind⟩ := found
    rw [arm_of_readToken read] at goes
    cases token with
    | run =>
      rw [Token.arm] at goes
      split_ifs at goes with notSlash
      cases goes
      exact ⟨rfl, notSlash⟩
    | _ =>
      rw [Token.arm] at goes
      · split_ifs at goes
      · intro same
        cases same

theorem arm_eq_takes {pattern next : List Char} {c : Char} (goes : arm pattern c = .takes next) :
    ∃ token, readToken pattern = some (token, next) ∧ token.takes c = true := by
  cases read : readToken pattern with
  | none =>
    rw [readToken_eq_none_iff.mp read] at goes
    cases goes
  | some found =>
    obtain ⟨token, behind⟩ := found
    rw [arm_of_readToken read] at goes
    cases token with
    | run =>
      rw [Token.arm] at goes
      split_ifs at goes
    | _ =>
      rw [Token.arm] at goes
      · split_ifs at goes with takes
        cases goes
        exact ⟨_, rfl, takes⟩
      · intro same
        cases same

theorem arm_eq_fails {pattern : List Char} {c : Char} (goes : arm pattern c = .fails) :
    pattern = [] ∨ ∃ token next, readToken pattern = some (token, next) ∧
      token.takes c = false ∧ (token = .run → c = '/') := by
  cases read : readToken pattern with
  | none => exact .inl (readToken_eq_none_iff.mp read)
  | some found =>
    obtain ⟨token, behind⟩ := found
    rw [arm_of_readToken read] at goes
    refine .inr ⟨token, behind, rfl, ?_⟩
    cases token with
    | run =>
      rw [Token.arm] at goes
      split_ifs at goes with notSlash
      exact ⟨rfl, fun _ => not_not.mp notSlash⟩
    | _ =>
      rw [Token.arm] at goes
      · split_ifs at goes with takes
        exact ⟨Bool.eq_false_iff.mpr takes, fun same => by cases same⟩
      · intro same
        cases same

theorem length_of_arm_star {pattern next : List Char} {c : Char}
    (goes : arm pattern c = .star next) : next.length < pattern.length :=
  length_of_readToken (arm_eq_star goes).1

theorem length_of_arm_takes {pattern next : List Char} {c : Char}
    (goes : arm pattern c = .takes next) : next.length < pattern.length := by
  obtain ⟨token, read, _⟩ := arm_eq_takes goes
  exact length_of_readToken read

/-- From a place of the pattern and of the name, with the place to come back to: what follows the
last star, and what that star has not taken. -/
def matchFrom (pattern name : List Char) (star : Option (List Char × List Char)) : Bool :=
  match name with
  | [] => pattern.all (· = '*')
  | c :: rest =>
    match goes : arm pattern c with
    | .star next => matchFrom next (c :: rest) (some (next, c :: rest))
    | .takes next => matchFrom next rest star
    | .fails =>
      match star with
      | some (next, eaten :: left) =>
        if eaten ≠ '/' then matchFrom next left (some (next, left)) else false
      | _ => false
termination_by
  (match star with
    | some (_, left) => max left.length name.length
    | none => name.length + 1, pattern.length)
decreasing_by
  · have := length_of_arm_star goes
    simp_wf
    grind
  · have := length_of_arm_takes goes
    simp_wf
    grind
  · simp_wf
    grind

/-- The pattern begins with a dot that stands for itself. -/
def beginsWithDot (pattern : List Char) : Bool :=
  ['.'].isPrefixOf pattern || ['\\', '.'].isPrefixOf pattern

def globMatches (pattern name : String) : Bool :=
  if ['.'].isPrefixOf name.toList && !beginsWithDot pattern.toList then false
  else matchFrom pattern.toList name.toList none

/-! ### No wildcard stands for a slash -/

theorem readTokens_nil : readTokens [] = [] := by
  rw [readTokens]
  rfl

theorem readTokens_of_readToken {pattern next : List Char} {token : Token}
    (read : readToken pattern = some (token, next)) :
    readTokens pattern = token :: readTokens next := by
  rw [readTokens]
  split
  · rename_i none
    rw [read] at none
    cases none
  · rename_i found
    rw [read] at found
    cases found
    rfl

theorem InLanguageApart.runHere {tokens : List Token} {name : List Char}
    (within : InLanguageApart tokens name) : InLanguageApart (.run :: tokens) name := by
  obtain ⟨parts, isName, means⟩ := within
  exact ⟨[] :: parts, isName, List.Forall₂.cons ⟨trivial, fun _ => not_mem_nil⟩ means⟩

theorem InLanguageApart.runMore {tokens : List Token} {name : List Char} {c : Char}
    (within : InLanguageApart (.run :: tokens) name) (notSlash : c ≠ '/') :
    InLanguageApart (.run :: tokens) (c :: name) := by
  obtain ⟨parts, isName, means⟩ := within
  cases means with
  | cons here others =>
    rename_i part parts
    refine ⟨(c :: part) :: parts, congrArg (c :: ·) isName,
      List.Forall₂.cons ⟨trivial, fun wildcard => ?_⟩ others⟩
    rw [mem_cons, not_or]
    exact ⟨notSlash.symm, here.2 wildcard⟩

theorem Token.means_of_takes {token : Token} {c : Char} (takes : token.takes c = true) :
    token.Means [c] ∧ (token.IsWildcard → '/' ∉ [c]) := by
  cases token with
  | literal d =>
    have same : d = c := of_decide_eq_true takes
    exact ⟨by rw [same]; rfl, fun wildcard => absurd rfl (wildcard d)⟩
  | any =>
    have notSlash : c ≠ '/' := of_decide_eq_true takes
    exact ⟨rfl, fun _ member => notSlash (mem_singleton.mp member).symm⟩
  | run => cases takes
  | cls set =>
    have both : c ≠ '/' ∧ set.holds c = true := of_decide_eq_true takes
    exact ⟨⟨c, rfl, both.2⟩, fun _ member => both.1 (mem_singleton.mp member).symm⟩

theorem InLanguageApart.takes {token : Token} {tokens : List Token} {name : List Char} {c : Char}
    (within : InLanguageApart tokens name) (takes : token.takes c = true) :
    InLanguageApart (token :: tokens) (c :: name) := by
  obtain ⟨parts, isName, means⟩ := within
  exact ⟨[c] :: parts, congrArg (c :: ·) isName,
    List.Forall₂.cons (Token.means_of_takes takes) means⟩

theorem inLanguageApart_nil {pattern : List Char} (stars : pattern.all (· = '*') = true) :
    InLanguageApart (readTokens pattern) [] := by
  induction pattern with
  | nil =>
    rw [readTokens_nil]
    exact ⟨[], rfl, List.Forall₂.nil⟩
  | cons head rest inductionHypothesis =>
    rw [all_cons, Bool.and_eq_true, decide_eq_true_eq] at stars
    rw [stars.1, @readTokens_of_readToken ('*' :: rest) rest .run rfl]
    exact (inductionHypothesis stars.2).runHere

/-- What is left once the star of the place to come back to has taken one letter more. -/
def ResumesApart (star : Option (List Char × List Char)) : Prop :=
  ∃ next eaten left, star = some (next, eaten :: left) ∧ eaten ≠ '/' ∧
    InLanguageApart (.run :: readTokens next) left

/-- What is found is described from where the matcher is, or from where it can come back to. -/
theorem apart_of_matchFrom {pattern name : List Char} {star : Option (List Char × List Char)}
    (found : matchFrom pattern name star = true) :
    InLanguageApart (readTokens pattern) name ∨ ResumesApart star := by
  fun_induction matchFrom pattern name star with
  | case1 => exact .inl (inLanguageApart_nil found)
  | case2 pattern star c rest next goes inductionHypothesis =>
    obtain ⟨read, notSlash⟩ := arm_eq_star goes
    rw [readTokens_of_readToken read]
    rcases inductionHypothesis found with here | ⟨_, eaten, left, same, _, later⟩
    · exact .inl here.runHere
    · cases same
      exact .inl (later.runMore notSlash)
  | case3 pattern star c rest next goes inductionHypothesis =>
    obtain ⟨token, read, takes⟩ := arm_eq_takes goes
    rw [readTokens_of_readToken read]
    exact (inductionHypothesis found).imp_left fun here => here.takes takes
  | case4 pattern c rest goes next eaten left notSlash inductionHypothesis =>
    refine .inr ⟨next, eaten, left, rfl, notSlash, ?_⟩
    rcases inductionHypothesis found with here | ⟨_, skipped, later, same, notSlashLater, resumes⟩
    · exact here.runHere
    · cases same
      exact resumes.runMore notSlashLater
  | case5 => cases found
  | case6 => cases found

/-! ### Every name without a slash -/

/-- A token as a piece of a pattern. -/
def Token.piece : Token → Piece Char
  | run => .run
  | token => .one token.takes

def pieces (pattern : List Char) : List (Piece Char) := (readTokens pattern).map Token.piece

theorem pieces_of_readToken {pattern next : List Char} {token : Token}
    (read : readToken pattern = some (token, next)) :
    pieces pattern = token.piece :: pieces next := by
  rw [pieces, readTokens_of_readToken read, map_cons, pieces]

theorem piece_of_ne_run {token : Token} (notRun : token ≠ .run) :
    token.piece = .one token.takes := by
  cases token with
  | run => exact absurd rfl notRun
  | _ => rfl

theorem token_ne_run {head : Char} {rest next : List Char} {token : Token}
    (read : readToken (head :: rest) = some (token, next)) (notStar : head ≠ '*') :
    token ≠ .run := by
  rintro rfl
  unfold readToken at read
  split at read
  · cases read
  · rename_i same
    cases same
    exact notStar rfl
  · cases read
  · split at read <;> cases read
  · cases read
  · cases read

theorem all_isRun_pieces (pattern : List Char) :
    (pieces pattern).all Piece.isRun = pattern.all (· = '*') := by
  induction pattern with
  | nil =>
    rw [pieces, readTokens_nil]
    rfl
  | cons head rest inductionHypothesis =>
    by_cases isStar : head = '*'
    · rw [isStar, @pieces_of_readToken ('*' :: rest) rest .run rfl, all_cons, all_cons,
        inductionHypothesis]
      rfl
    · obtain ⟨⟨token, next⟩, read⟩ := Option.ne_none_iff_exists'.mp fun none =>
        cons_ne_nil head rest (readToken_eq_none_iff.mp none)
      rw [pieces_of_readToken read, piece_of_ne_run (token_ne_run read isStar), all_cons,
        all_cons, decide_eq_false isStar]
      rfl

/-- Where the head of the pattern fails, the search comes back. -/
theorem search_of_fails {pattern rest : List Char} {c skipped : Char}
    {later : List (Piece Char)} {left : List Char} (goes : arm pattern c = .fails)
    (notSlash : c ≠ '/') :
    search (pieces pattern) (c :: rest) (some (later, skipped :: left)) =
      search later left (some (later, left)) := by
  rcases arm_eq_fails goes with rfl | ⟨token, next, read, fails, slashOnly⟩
  · rw [pieces, readTokens_nil, map_nil]
    conv => lhs; unfold search
  · have notRun : token ≠ .run := fun isRun => notSlash (slashOnly isRun)
    rw [pieces_of_readToken read, piece_of_ne_run notRun]
    exact search_one_of_miss (by rw [fails]; decide)

theorem search_of_fails_spent {pattern rest : List Char} {c : Char}
    {back : Option (List (Piece Char) × List Char)} (goes : arm pattern c = .fails)
    (notSlash : c ≠ '/') (spent : Spent back) : search (pieces pattern) (c :: rest) back = false := by
  rcases arm_eq_fails goes with rfl | ⟨token, next, read, fails, slashOnly⟩
  · rw [pieces, readTokens_nil, map_nil]
    exact search_nil_of_spent spent
  · have notRun : token ≠ .run := fun isRun => notSlash (slashOnly isRun)
    rw [pieces_of_readToken read, piece_of_ne_run notRun]
    exact search_one_of_spent (by rw [fails]; decide) spent

/-- Over a name without a slash, the matcher is the search for the pieces of the pattern. -/
theorem matchFrom_eq_search {pattern name : List Char} {star : Option (List Char × List Char)}
    (noSlash : '/' ∉ name) (noSlashLeft : ∀ next left, star = some (next, left) → '/' ∉ left) :
    matchFrom pattern name star =
      search (pieces pattern) name (star.map fun back => (pieces back.1, back.2)) := by
  fun_induction matchFrom pattern name star with
  | case1 pattern star => rw [search, all_isRun_pieces]
  | case2 pattern star c rest next goes inductionHypothesis =>
    obtain ⟨read, _⟩ := arm_eq_star goes
    rw [inductionHypothesis noSlash (fun _ _ same => by cases same; exact noSlash),
      pieces_of_readToken read]
    conv => rhs; unfold search
    rfl
  | case3 pattern star c rest next goes inductionHypothesis =>
    obtain ⟨token, read, takes⟩ := arm_eq_takes goes
    have notRun : token ≠ .run := by
      rintro rfl
      cases takes
    rw [inductionHypothesis (fun member => noSlash (mem_cons_of_mem _ member)) noSlashLeft,
      pieces_of_readToken read, piece_of_ne_run notRun]
    exact (search_one_of_hit takes).symm
  | case4 pattern c rest goes next eaten left notSlash inductionHypothesis =>
    have leftPlain := noSlashLeft next (eaten :: left) rfl
    rw [inductionHypothesis (fun member => leftPlain (mem_cons_of_mem _ member))
      (fun _ _ same member => by cases same; exact leftPlain (mem_cons_of_mem _ member))]
    exact (search_of_fails goes fun isSlash => noSlash (isSlash ▸ mem_cons_self ..)).symm
  | case5 pattern c rest goes next eaten left isSlash =>
    have leftPlain := noSlashLeft next (eaten :: left) rfl
    exact absurd (not_not.mp isSlash ▸ mem_cons_self ..) leftPlain
  | case6 pattern star c rest goes spent =>
    refine (search_of_fails_spent goes
      (fun isSlash => noSlash (isSlash ▸ mem_cons_self ..)) ?_).symm
    intro later skipped left same
    obtain ⟨⟨next, behind⟩, isStar, isBack⟩ := Option.map_eq_some_iff.mp same
    cases isBack
    exact spent next skipped left isStar

/-- One letter is what a token other than a star stands for. -/
theorem Token.means_iff_takes {token : Token} {part : List Char} (notRun : token ≠ .run)
    (noSlash : '/' ∉ part) : token.Means part ↔ ∃ c, part = [c] ∧ token.takes c = true := by
  constructor
  · intro means
    cases token with
    | literal d => exact ⟨d, means, decide_eq_true rfl⟩
    | any =>
      obtain ⟨c, rfl⟩ := length_eq_one_iff.mp means
      exact ⟨c, rfl, decide_eq_true fun isSlash => noSlash (isSlash ▸ mem_cons_self ..)⟩
    | run => exact absurd rfl notRun
    | cls set =>
      obtain ⟨c, rfl, holds⟩ := means
      have notSlash : c ≠ '/' := fun isSlash => noSlash (isSlash ▸ mem_cons_self ..)
      exact ⟨c, rfl, decide_eq_true ⟨notSlash, holds⟩⟩
  · rintro ⟨c, rfl, takes⟩
    exact (Token.means_of_takes takes).1

theorem inLanguage_nil_iff {name : List Char} : InLanguage [] name ↔ name = [] := by
  constructor
  · rintro ⟨parts, isName, means⟩
    cases means
    exact isName.symm
  · rintro rfl
    exact ⟨[], rfl, List.Forall₂.nil⟩

theorem inLanguage_cons_iff {token : Token} {tokens : List Token} {name : List Char} :
    InLanguage (token :: tokens) name ↔
      ∃ part rest, part ++ rest = name ∧ token.Means part ∧ InLanguage tokens rest := by
  constructor
  · rintro ⟨parts, isName, means⟩
    cases means with
    | cons here others => exact ⟨_, _, isName, here, _, rfl, others⟩
  · rintro ⟨part, rest, isName, here, parts, rfl, others⟩
    exact ⟨part :: parts, isName, List.Forall₂.cons here others⟩

/-- The pieces of a pattern fit what its tokens describe. -/
theorem fits_iff_inLanguage {tokens : List Token} {name : List Char} (noSlash : '/' ∉ name) :
    Fits (tokens.map Token.piece) name ↔ InLanguage tokens name := by
  induction tokens generalizing name with
  | nil => exact inLanguage_nil_iff.symm
  | cons token tokens inductionHypothesis =>
    rw [map_cons, inLanguage_cons_iff]
    by_cases isRun : token = .run
    · subst isRun
      constructor
      · rintro ⟨rest, ⟨part, rfl⟩, fits⟩
        have restPlain : '/' ∉ rest := fun member => noSlash (mem_append_right _ member)
        exact ⟨part, rest, rfl, trivial, (inductionHypothesis restPlain).mp fits⟩
      · rintro ⟨part, rest, rfl, -, within⟩
        have restPlain : '/' ∉ rest := fun member => noSlash (mem_append_right _ member)
        exact ⟨rest, suffix_append part rest, (inductionHypothesis restPlain).mpr within⟩
    · rw [piece_of_ne_run isRun]
      constructor
      · intro fits
        cases name with
        | nil => exact absurd fits id
        | cons c rest =>
          have restPlain : '/' ∉ rest := fun member => noSlash (mem_cons_of_mem _ member)
          exact ⟨[c], rest, rfl, (Token.means_of_takes fits.1).1,
            (inductionHypothesis restPlain).mp fits.2⟩
      · rintro ⟨part, rest, rfl, means, within⟩
        have partPlain : '/' ∉ part := fun member => noSlash (mem_append_left _ member)
        have restPlain : '/' ∉ rest := fun member => noSlash (mem_append_right _ member)
        obtain ⟨c, rfl, takes⟩ := (Token.means_iff_takes isRun partPlain).mp means
        exact ⟨takes, (inductionHypothesis restPlain).mpr within⟩

/-! ### Exactness -/

theorem head_readTokens (pattern : List Char) :
    (readTokens pattern).head? = (readToken pattern).map Prod.fst := by
  cases read : readToken pattern with
  | none =>
    rw [readToken_eq_none_iff.mp read, readTokens_nil]
    rfl
  | some found => rw [readTokens_of_readToken read, head?_cons, Option.map_some]

/-- A pattern begins with a dot of its own when its first token is one. -/
theorem beginsWithDot_iff (pattern : List Char) :
    beginsWithDot pattern = true ↔ (readTokens pattern).head? = some (.literal '.') := by
  rw [head_readTokens]
  cases pattern with
  | nil => simp [beginsWithDot, readToken]
  | cons head rest =>
    by_cases isStar : head = '*'
    · subst isStar
      simp [beginsWithDot, readToken]
    by_cases isAny : head = '?'
    · subst isAny
      simp [beginsWithDot, readToken]
    by_cases isClass : head = '['
    · subst isClass
      cases isRead : readClass rest <;> simp [beginsWithDot, readToken, isRead]
    by_cases isEscape : head = '\\'
    · subst isEscape
      cases rest <;> simp [beginsWithDot, readToken, @eq_comm Char '.']
    · rw [readToken_letter isStar isAny isClass isEscape]
      simp [beginsWithDot, @eq_comm Char '.', @eq_comm Char '\\', isEscape]

theorem matchFrom_iff {pattern name : List Char} (noSlash : '/' ∉ name) :
    matchFrom pattern name none = true ↔ InLanguage (readTokens pattern) name := by
  have isSearch := @matchFrom_eq_search pattern name none noSlash (by intro _ _ same; cases same)
  rw [isSearch, Option.map_none, search_none_iff, pieces, fits_iff_inLanguage noSlash]

theorem isPrefixOf_dot_iff (name : List Char) :
    ['.'].isPrefixOf name = true ↔ name.head? = some '.' := by
  cases name <;> simp [List.isPrefixOf, @eq_comm Char '.']

theorem globMatches_iff (pattern name : String) : globMatches pattern name = true ↔
    (name.toList.head? = some '.' → (readTokens pattern.toList).head? = some (.literal '.')) ∧
      matchFrom pattern.toList name.toList none = true := by
  rw [← isPrefixOf_dot_iff, ← beginsWithDot_iff, globMatches]
  split_ifs with hidden
  · rw [Bool.and_eq_true, Bool.not_eq_true'] at hidden
    simp [hidden.1, hidden.2]
  · rw [Bool.and_eq_true, Bool.not_eq_true', not_and, Bool.not_eq_false] at hidden
    exact (and_iff_right hidden).symm

/-- Matching is exact for the names without a slash, and no wildcard stands for one. -/
theorem globMatches_exact (pattern : String) :
    (∀ name : String, '/' ∉ name.toList → (globMatches pattern name = true ↔
      (name.toList.head? = some '.' →
        (readTokens pattern.toList).head? = some (.literal '.')) ∧
      InLanguage (readTokens pattern.toList) name.toList)) ∧
    ∀ name : String, globMatches pattern name = true →
      InLanguageApart (readTokens pattern.toList) name.toList := by
  constructor
  · intro name noSlash
    rw [globMatches_iff, matchFrom_iff noSlash]
  · intro name found
    rcases apart_of_matchFrom (globMatches_iff pattern name |>.mp found).2 with here | resumes
    · exact here
    · obtain ⟨next, eaten, left, same, -⟩ := resumes
      cases same

theorem globMatches_star_dotfile : globMatches "*" ".ssh" = false := by
  refine Bool.eq_false_iff.mpr fun found => ?_
  have dotted := (((globMatches_exact "*").1 ".ssh" (by decide)).mp found).1 rfl
  rw [head_readTokens] at dotted
  exact absurd dotted (by decide)

end Oryxis.Shell

/-
This file reads a line of the POSIX shell: the characters are cut into words and operators as the
standard prescribes for blanks, single quotes and the backslash, and the words are cut into simple
commands joined by `&&`. Characters with another meaning outside quotes make the reading
undefined, so what is read follows the standard. A line of words and operators with blanks between
them is read to their tokens, and a text without a single quote stands for itself between two.
-/

import Mathlib.Data.List.Forall2

namespace Oryxis.Library.Sh

open List

/-! ### Tokens -/

/-- A stretch of a word: a character and whether it was quoted, or the start of a quotation. -/
inductive Piece where
  | literal (quoted : Bool) (letter : Char)
  | quotation
  deriving DecidableEq

inductive Token where
  | word (pieces : List Piece)
  | andIf

/-- Where the reading stands: between words, in a word outside quotes, inside single quotes, behind
a backslash, behind one ampersand, or outside of what is read here. -/
inductive Mode where
  | between
  | word
  | single
  | escape
  | ampersand
  | outside

/-- A character without a meaning of its own outside quotes. -/
def isOrdinary (letter : Char) : Bool :=
  letter.isAlphanum || ['_', '%', '+', ',', '-', '.', '/', ':', '@', '='].contains letter

/-- What is read of the text after a position: the rest of the word that is open there, and the
tokens after it. -/
structure Lexed where
  word : Option (List Piece)
  tokens : List Token

namespace Lexed

def push (piece : Piece) (later : Lexed) : Lexed :=
  { later with word := some (piece :: later.word.getD []) }

/-- The word ends here. -/
def close (later : Lexed) : Lexed :=
  match later.word with
  | none => later
  | some pieces => ⟨none, .word pieces :: later.tokens⟩

def operator (token : Token) (later : Lexed) : Lexed := ⟨none, token :: later.close.tokens⟩

end Lexed

/-- The mode after a character outside quotes. -/
def afterPlain (letter : Char) : Mode :=
  if letter = ' ' ∨ letter = '\t' then .between
  else if letter = '\'' then .single
  else if letter = '\\' then .escape
  else if letter = '&' then .ampersand
  else if isOrdinary letter then .word
  else .outside

def atPlain (letter : Char) (later : Lexed) : Lexed :=
  if letter = ' ' ∨ letter = '\t' then later.close
  else if letter = '\'' then later.push .quotation
  else if isOrdinary letter then later.push (.literal false letter)
  else later

def next : Mode → Char → Mode
  | .between, letter | .word, letter => afterPlain letter
  | .single, letter => if letter = '\'' then .word else .single
  -- a backslash before a line break would join two lines
  | .escape, letter => if letter = '\n' then .outside else .word
  | .ampersand, letter => if letter = '&' then .between else .outside
  | .outside, _ => .outside

/-- What a character contributes to the tokens, given what follows it. -/
def act : Mode → Char → Lexed → Lexed
  | .between, letter, later | .word, letter, later => atPlain letter later
  | .single, letter, later => if letter = '\'' then later else later.push (.literal true letter)
  | .escape, letter, later => later.push (.literal true letter)
  | .ampersand, _, later => later.operator .andIf
  | .outside, _, later => later

/-- The mode after a text. -/
def modeAfter (mode : Mode) (text : List Char) : Mode := text.foldl next mode

/-- What a text contributes to the tokens, given what follows it. -/
def absorb : Mode → List Char → Lexed → Lexed
  | _, [], later => later
  | mode, letter :: rest, later => act mode letter (absorb (next mode letter) rest later)

/-- A text may end between two words or in one outside quotes. -/
def Mode.mayEnd : Mode → Bool
  | .between | .word => true
  | .single | .escape | .ampersand | .outside => false

def tokenize (text : List Char) : Option (List Token) :=
  if (modeAfter .between text).mayEnd then
    some (absorb .between text ⟨none, []⟩).close.tokens
  else none

/-! ### Commands -/

def reservedWords : List String :=
  ["!", "\x7b", "\x7d", "case", "do", "done", "elif", "else", "esac", "fi", "for", "if", "in", "then",
    "until", "while"]

def Piece.text : Piece → List Char
  | .literal _ letter => [letter]
  | .quotation => []

def wordText (pieces : List Piece) : List Char := pieces.flatMap Piece.text

/-- A first word that names a command: not reserved, and not an assignment. -/
def namesCommand (pieces : List Piece) : Bool :=
  !(reservedWords.map String.toList).contains (wordText pieces)
    && !pieces.contains (.literal false '=')

/-- The argument lists of simple commands joined by `&&`, the first of them begun. -/
def andList (begun : List (List Char)) : List Token → Option (List (List (List Char)))
  | [] => if begun = [] then none else some [begun]
  | .word pieces :: rest =>
    if begun = [] ∧ ¬namesCommand pieces then none else andList (begun ++ [wordText pieces]) rest
  | .andIf :: rest => if begun = [] then none else (andList [] rest).map (begun :: ·)

/-- The argument lists a line stands for. -/
def argumentLists (line : List Char) : Option (List (List (List Char))) :=
  (tokenize line).bind (andList [])

/-! ### Reading piece by piece -/

theorem modeAfter_append (mode : Mode) (first second : List Char) :
    modeAfter mode (first ++ second) = modeAfter (modeAfter mode first) second :=
  foldl_append

theorem modeAfter_cons (mode : Mode) (letter : Char) (rest : List Char) :
    modeAfter mode (letter :: rest) = modeAfter (next mode letter) rest := rfl

theorem absorb_append (mode : Mode) (first second : List Char) (later : Lexed) :
    absorb mode (first ++ second) later =
      absorb mode first (absorb (modeAfter mode first) second later) := by
  induction first generalizing mode with
  | nil => rfl
  | cons letter rest inductionHypothesis =>
    rw [cons_append, absorb, absorb, inductionHypothesis]
    rfl

/-- Put pieces in front of a word. -/
def Lexed.pushAll (pieces : List Piece) (later : Lexed) : Lexed := pieces.foldr push later

theorem Lexed.pushAll_cons (piece : Piece) (pieces : List Piece) (later : Lexed) :
    later.pushAll (piece :: pieces) = (later.pushAll pieces).push piece := rfl

theorem Lexed.pushAll_append (first second : List Piece) (later : Lexed) :
    later.pushAll (first ++ second) = (later.pushAll second).pushAll first :=
  foldr_append

theorem Lexed.pushAll_none {pieces : List Piece} (some_ : pieces ≠ []) (tokens : List Token) :
    Lexed.pushAll pieces ⟨none, tokens⟩ = ⟨some pieces, tokens⟩ := by
  induction pieces with
  | nil => exact absurd rfl some_
  | cons piece pieces inductionHypothesis =>
    rw [pushAll_cons]
    cases pieces with
    | nil => rfl
    | cons second rest =>
      rw [inductionHypothesis (cons_ne_nil _ _)]
      rfl

/-- A text that is read as the pieces of a word, or of a part of one. -/
structure Spells (text : List Char) (pieces : List Piece) : Prop where
  ends : ∀ mode, mode = .between ∨ mode = .word → modeAfter mode text = .word
  reads : ∀ mode, mode = .between ∨ mode = .word → ∀ later,
    absorb mode text later = later.pushAll pieces

theorem Spells.append {first second : List Char} {before behind : List Piece}
    (one : Spells first before) (two : Spells second behind) :
    Spells (first ++ second) (before ++ behind) where
  ends mode outside := by
    rw [modeAfter_append, one.ends mode outside, two.ends .word (.inr rfl)]
  reads mode outside later := by
    rw [absorb_append, one.ends mode outside, two.reads .word (.inr rfl), one.reads mode outside,
      Lexed.pushAll_append]

theorem spells_ordinary {letter : Char} (ordinary : isOrdinary letter) :
    Spells [letter] [.literal false letter] := by
  have apart : ∀ special : Char, isOrdinary special = false → letter ≠ special := by
    rintro special none rfl
    exact absurd ordinary (by rw [none]; exact Bool.false_ne_true)
  have notBlank : ¬(letter = ' ' ∨ letter = '\t') := by
    rintro (blank | tab)
    · exact apart ' ' (by decide) blank
    · exact apart '\t' (by decide) tab
  have notQuote := apart '\'' (by decide)
  have notEscape := apart '\\' (by decide)
  have notAmpersand := apart '&' (by decide)
  have stays : afterPlain letter = .word := by
    rw [afterPlain, if_neg notBlank, if_neg notQuote, if_neg notEscape, if_neg notAmpersand,
      if_pos ordinary]
  have reads (later : Lexed) : atPlain letter later = later.push (.literal false letter) := by
    rw [atPlain, if_neg notBlank, if_neg notQuote, if_pos ordinary]
  constructor
  · rintro mode (rfl | rfl)
    · exact stays
    · exact stays
  · rintro mode (rfl | rfl) later
    · exact reads later
    · exact reads later

/-- A word of ordinary characters is read as itself. -/
theorem spells_plain {text : List Char} (some_ : text ≠ [])
    (ordinary : ∀ letter ∈ text, isOrdinary letter) :
    Spells text (text.map (.literal false)) := by
  induction text with
  | nil => exact absurd rfl some_
  | cons letter rest inductionHypothesis =>
    have first := spells_ordinary (ordinary letter mem_cons_self)
    cases rest with
    | nil => exact first
    | cons second rest =>
      exact first.append (inductionHypothesis (cons_ne_nil _ _) fun other among =>
        ordinary other (mem_cons_of_mem _ among))

/-- An escaped character is read as itself. -/
theorem spells_escaped {letter : Char} (sameLine : letter ≠ '\n') :
    Spells ['\\', letter] [.literal true letter] := by
  have stays : modeAfter .escape [letter] = .word := if_neg sameLine
  constructor
  · rintro mode (rfl | rfl)
    · exact stays
    · exact stays
  · rintro mode (rfl | rfl) later
    · rfl
    · rfl

theorem reads_single {text : List Char} (quoteless : '\'' ∉ text) (later : Lexed) :
    modeAfter .single text = .single ∧
      absorb .single text later = later.pushAll (text.map (.literal true)) := by
  induction text with
  | nil => exact ⟨rfl, rfl⟩
  | cons letter rest inductionHypothesis =>
    have plain : letter ≠ '\'' := fun same => quoteless (same ▸ mem_cons_self)
    obtain ⟨mode, read⟩ :=
      inductionHypothesis fun member => quoteless (mem_cons_of_mem _ member)
    have stays : next .single letter = .single := if_neg plain
    constructor
    · rw [modeAfter_cons, stays, mode]
    · rw [absorb, stays, read]
      exact if_neg plain

/-- A text without a single quote stands for itself between single quotes. -/
theorem spells_single {text : List Char} (quoteless : '\'' ∉ text) :
    Spells ('\'' :: (text ++ ['\''])) (.quotation :: text.map (.literal true)) := by
  have opened (mode : Mode) (outside : mode = .between ∨ mode = .word) :
      next mode '\'' = .single ∧ ∀ later, act mode '\'' later = later.push .quotation := by
    obtain rfl | rfl := outside
    · exact ⟨rfl, fun _ => rfl⟩
    · exact ⟨rfl, fun _ => rfl⟩
  constructor
  · intro mode outside
    rw [modeAfter_cons, (opened mode outside).1, modeAfter_append,
      (reads_single quoteless ⟨none, []⟩).1]
    rfl
  · intro mode outside later
    rw [absorb, (opened mode outside).1, absorb_append, (reads_single quoteless later).1,
      (opened mode outside).2, (reads_single quoteless _).2]
    rfl

/-! ### Lines -/

/-- A text that is read as one token, by itself. -/
structure Lexes (text : List Char) (token : Token) : Prop where
  ends : modeAfter .between text = .between ∨ modeAfter .between text = .word
  reads : ∀ tokens, (absorb .between text ⟨none, tokens⟩).close = ⟨none, token :: tokens⟩

theorem Spells.lexes {text : List Char} {pieces : List Piece} (spells : Spells text pieces)
    (some_ : pieces ≠ []) : Lexes text (.word pieces) where
  ends := .inr (spells.ends .between (.inl rfl))
  reads tokens := by
    rw [spells.reads .between (.inl rfl), Lexed.pushAll_none some_]
    rfl

theorem lexes_andIf : Lexes ['&', '&'] .andIf where
  ends := .inl rfl
  reads _ := rfl

/-- Texts with one blank between each two. -/
def joinBlank : List (List Char) → List Char
  | [] => []
  | [text] => text
  | text :: rest => text ++ ' ' :: joinBlank rest

theorem joinBlank_cons (text : List Char) {rest : List (List Char)} (more : rest ≠ []) :
    joinBlank (text :: rest) = text ++ ' ' :: joinBlank rest := by
  obtain ⟨second, others, rfl⟩ := exists_cons_of_ne_nil more
  rfl

/-- A line of texts with blanks between them is read as the tokens of the texts. -/
theorem tokenize_joinBlank {texts : List (List Char)} {tokens : List Token}
    (lexes : List.Forall₂ Lexes texts tokens) : tokenize (joinBlank texts) = some tokens := by
  have line : (modeAfter .between (joinBlank texts) = .between ∨
      modeAfter .between (joinBlank texts) = .word) ∧
      (absorb .between (joinBlank texts) ⟨none, []⟩).close = ⟨none, tokens⟩ := by
    induction lexes with
    | nil => exact ⟨.inl rfl, rfl⟩
    | @cons text token texts tokens one rest inductionHypothesis =>
      cases texts with
      | nil =>
        cases rest
        exact ⟨one.ends, one.reads []⟩
      | cons second others =>
        obtain ⟨ends, reads⟩ := inductionHypothesis
        have blank : ∀ mode : Mode, mode = .between ∨ mode = .word →
            next mode ' ' = .between ∧ ∀ later, act mode ' ' later = later.close := by
          rintro mode (rfl | rfl)
          · exact ⟨rfl, fun _ => rfl⟩
          · exact ⟨rfl, fun _ => rfl⟩
        obtain ⟨between, closes⟩ := blank _ one.ends
        rw [joinBlank_cons text (cons_ne_nil _ _)]
        constructor
        · rw [modeAfter_append, modeAfter_cons, between]
          exact ends
        · rw [absorb_append, absorb, between, closes, reads, one.reads]
  have ended : (modeAfter .between (joinBlank texts)).mayEnd = true := by
    obtain between | word := line.1
    · rw [between]
      rfl
    · rw [word]
      rfl
  rw [tokenize, if_pos ended, line.2]

theorem joinBlank_append {first second : List (List Char)} (some_ : first ≠ [])
    (more : second ≠ []) :
    joinBlank (first ++ second) = joinBlank first ++ ' ' :: joinBlank second := by
  induction first with
  | nil => exact absurd rfl some_
  | cons text rest inductionHypothesis =>
    cases rest with
    | nil => exact joinBlank_cons text more
    | cons other rest =>
      have longer : other :: rest ++ second ≠ [] := cons_ne_nil _ _
      rw [cons_append, joinBlank_cons text longer, joinBlank_cons text (cons_ne_nil _ _),
        inductionHypothesis (cons_ne_nil _ _), append_assoc, cons_append]

/-! ### Argument lists -/

/-- A text that stands for one word. -/
def WordOf (text word : List Char) : Prop :=
  ∃ pieces, Spells text pieces ∧ pieces ≠ [] ∧ wordText pieces = word

/-- The texts of a simple command and its argument list. -/
inductive Stands : List (List Char) → List (List Char) → Prop where
  | command {name : List Char} {pieces : List Piece} {texts words : List (List Char)} :
      Spells name pieces → pieces ≠ [] → namesCommand pieces = true →
      List.Forall₂ WordOf texts words → Stands (name :: texts) (wordText pieces :: words)

/-- The texts of commands joined by `&&`. -/
def joinAnd : List (List (List Char)) → List (List Char)
  | [] => []
  | [texts] => texts
  | texts :: rest => texts ++ ['&', '&'] :: joinAnd rest

theorem wordText_plain (text : List Char) : wordText (text.map (.literal false)) = text := by
  induction text with
  | nil => rfl
  | cons letter rest inductionHypothesis =>
    rw [map_cons, wordText, flatMap_cons]
    exact congrArg (letter :: ·) inductionHypothesis

/-- A word of ordinary characters stands for itself. -/
theorem wordOf_plain {text : List Char} (some_ : text ≠ [])
    (ordinary : ∀ letter ∈ text, isOrdinary letter) : WordOf text text :=
  ⟨_, spells_plain some_ ordinary, fun none => some_ (map_eq_nil_iff.mp none),
    wordText_plain text⟩

/-- Words behind the name of a command are read as its arguments. -/
theorem andList_words {texts words : List (List Char)} (stand : List.Forall₂ WordOf texts words) :
    ∃ tokens, List.Forall₂ Lexes texts tokens ∧ ∀ begun rest, begun ≠ [] →
      andList begun (tokens ++ rest) = andList (begun ++ words) rest := by
  induction stand with
  | nil =>
    refine ⟨[], .nil, fun begun rest _ => ?_⟩
    rw [nil_append, append_nil]
  | @cons text word texts words one _ inductionHypothesis =>
    obtain ⟨pieces, spells, some_, rfl⟩ := one
    obtain ⟨tokens, lexes, reads⟩ := inductionHypothesis
    refine ⟨.word pieces :: tokens, .cons (spells.lexes some_) lexes, ?_⟩
    intro begun rest named
    have grown : begun ++ [wordText pieces] ≠ [] := by
      rw [Ne, append_eq_nil_iff]
      exact fun both => named both.1
    rw [cons_append, andList, if_neg (fun both => named both.1), reads _ _ grown,
      append_assoc]
    rfl

theorem Stands.reads {texts words : List (List Char)} (stands : Stands texts words) :
    words ≠ [] ∧ ∃ tokens, List.Forall₂ Lexes texts tokens ∧
      ∀ rest, andList [] (tokens ++ rest) = andList words rest := by
  cases stands with
  | @command name pieces texts words spells some_ names rest =>
    obtain ⟨tokens, lexes, reads⟩ := andList_words rest
    refine ⟨cons_ne_nil _ _, .word pieces :: tokens, .cons (spells.lexes some_) lexes, ?_⟩
    intro later
    rw [cons_append, andList, if_neg (fun both => both.2 names), nil_append,
      reads _ _ (cons_ne_nil _ _)]
    rfl

/-- A line of commands stands for their argument lists. -/
theorem argumentLists_line {commands lists : List (List (List Char))} (some_ : commands ≠ [])
    (stand : List.Forall₂ Stands commands lists) :
    argumentLists (joinBlank (joinAnd commands)) = some lists := by
  have line : ∃ tokens, List.Forall₂ Lexes (joinAnd commands) tokens ∧
      andList [] tokens = some lists := by
    induction stand with
    | nil => exact absurd rfl some_
    | @cons texts words commands lists one rest inductionHypothesis =>
      obtain ⟨named, tokens, lexes, reads⟩ := one.reads
      cases commands with
      | nil =>
        cases rest
        refine ⟨tokens, lexes, ?_⟩
        have whole := reads []
        rw [append_nil] at whole
        rw [whole, andList, if_neg named]
      | cons second others =>
        obtain ⟨later, more, read⟩ := inductionHypothesis (cons_ne_nil _ _)
        refine ⟨tokens ++ .andIf :: later, rel_append lexes (.cons lexes_andIf more), ?_⟩
        rw [reads, andList, if_neg named, read]
        rfl
  obtain ⟨tokens, lexes, read⟩ := line
  rw [argumentLists, tokenize_joinBlank lexes, Option.bind_some, read]

end Oryxis.Library.Sh

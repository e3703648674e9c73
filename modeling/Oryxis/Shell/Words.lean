/-
This file is the two tokenizers of the SFTP console: the strict one, which cuts a submitted
line into words, and the lenient one, which finds the word under the cursor of a line that
is still being typed.

The strict one hands its words on with the letters that were quoted escaped; the lenient one
hands them on bare. Both go through the same states, and what the one has read is at every
letter what the other has read, escaped.
-/

import Oryxis.Library.Utf8

namespace Oryxis.Shell

open Library List

/-- The quoting a letter stands in. -/
inductive Quote where
  | none
  | single
  | double
  deriving DecidableEq

inductive ParseError where
  | unterminatedQuote

/-- A text between apostrophes is literal. -/
def apostrophe : Char := Char.ofNat 0x27

def isBlank (c : Char) : Bool := c = ' ' || c = '\t'

/-! ### The strict tokenizer -/

/-- The letters that a backslash is kept in front of. -/
def isMagic (c : Char) : Bool := c = '\\' || c = '*' || c = '?' || c = '[' || c = ']'

/-- A letter that was asked to be taken literally. -/
def pushLiteral (cur : List Char) (c : Char) : List Char :=
  if isMagic c then cur ++ ['\\', c] else cur ++ [c]

mutual

/-- The outer loop, with the words before, the word being read and whether there is one. -/
def tokenizeFrom (words : List (List Char)) (cur : List Char) (hasWord : Bool) :
    List Char → Except ParseError (List (List Char))
  | [] => .ok (if hasWord then words ++ [cur] else words)
  | c :: rest =>
    if isBlank c then
      if hasWord then tokenizeFrom (words ++ [cur]) [] false rest
      else tokenizeFrom words cur false rest
    else if c = '\\' then
      match rest with
      | [] => .error .unterminatedQuote
      | next :: others => tokenizeFrom words (pushLiteral cur next) true others
    else if c = '"' then tokenizeDouble words cur rest
    else if c = apostrophe then tokenizeSingle words cur rest
    else tokenizeFrom words (cur ++ [c]) true rest

def tokenizeDouble (words : List (List Char)) (cur : List Char) :
    List Char → Except ParseError (List (List Char))
  | [] => .error .unterminatedQuote
  | c :: rest =>
    if c = '"' then tokenizeFrom words cur true rest
    else if c = '\\' then
      match rest with
      | [] => .error .unterminatedQuote
      | next :: others => tokenizeDouble words (pushLiteral cur next) others
    else tokenizeDouble words (pushLiteral cur c) rest

def tokenizeSingle (words : List (List Char)) (cur : List Char) :
    List Char → Except ParseError (List (List Char))
  | [] => .error .unterminatedQuote
  | c :: rest =>
    if c = apostrophe then tokenizeFrom words cur true rest
    else tokenizeSingle words (pushLiteral cur c) rest

end

def tokenize (line : List Char) : Except ParseError (List (List Char)) :=
  tokenizeFrom [] [] false line

/-- Drops one level of escaping. A backslash at the end stands for itself. -/
def unescape : List Char → List Char
  | [] => []
  | ['\\'] => ['\\']
  | '\\' :: next :: rest => next :: unescape rest
  | c :: rest => c :: unescape rest

/-! ### The lenient tokenizer -/

structure WordSpan where
  start : Nat
  text : List Char
  quote : Quote
  before : List (List Char)
  deriving DecidableEq

/-- Where the scan stands. -/
structure Scan where
  before : List (List Char)
  text : List Char
  start : Nat
  inWord : Bool
  quote : Quote
  escaped : Bool

/-- A word begins here, unless there is one. -/
def Scan.enter (scan : Scan) (i : Nat) : Scan :=
  if scan.inWord then scan else { scan with inWord := true, start := i }

/-- The letter at a byte of the line. -/
def Scan.step (scan : Scan) (i : Nat) (c : Char) : Scan :=
  if scan.escaped then { scan with text := scan.text ++ [c], escaped := false }
  else if scan.quote = .none ∧ isBlank c then
    if scan.inWord then
      { scan with before := scan.before ++ [scan.text], text := [], inWord := false }
    else scan
  else if (scan.quote = .none ∨ scan.quote = .double) ∧ c = '\\' then
    { scan.enter i with escaped := true }
  else if scan.quote = .none ∧ c = '"' then { scan.enter i with quote := .double }
  else if scan.quote = .none ∧ c = apostrophe then { scan.enter i with quote := .single }
  else if (scan.quote = .double ∧ c = '"') ∨ (scan.quote = .single ∧ c = apostrophe) then
    { scan with quote := .none }
  else { scan.enter i with text := scan.text ++ [c] }

def scanFrom (scan : Scan) (i : Nat) : List Char → Scan
  | [] => scan
  | c :: rest => scanFrom (scan.step i c) (i + c.utf8Size) rest

/-- The span of the word at the end of a text. -/
def spanOf (head : List Char) : WordSpan :=
  let cursor := utf8Len head
  let scan := scanFrom ⟨[], [], cursor, false, .none, false⟩ 0 head
  ⟨if scan.inWord then scan.start else cursor, scan.text, scan.quote, scan.before⟩

/-- The word under the cursor. Nothing, where the cursor is within a letter. -/
def wordAt (line : List Char) (cursor : Nat) : Option WordSpan :=
  (cutAt line (min cursor (utf8Len line))).map fun cut => spanOf cut.1

/-! ### Operands -/

inductive ArgSpace where
  | remote
  | locally
  /-- A mode, an owner or a umask. -/
  | none

structure Verb where
  name : String
  operands : List ArgSpace
  /-- The last operand may be given again. -/
  variadic : Bool

def verbs : List Verb := [
  ⟨"?", [], false⟩,
  ⟨"bye", [], false⟩,
  ⟨"cd", [.remote], false⟩,
  ⟨"chdir", [.remote], false⟩,
  ⟨"chgrp", [.none, .remote], true⟩,
  ⟨"chmod", [.none, .remote], true⟩,
  ⟨"chown", [.none, .remote], true⟩,
  ⟨"copy", [.remote, .remote], false⟩,
  ⟨"cp", [.remote, .remote], false⟩,
  ⟨"delete", [.remote], true⟩,
  ⟨"df", [.remote], false⟩,
  ⟨"dir", [.remote], false⟩,
  ⟨"exit", [], false⟩,
  ⟨"get", [.remote, .locally], false⟩,
  ⟨"help", [], false⟩,
  ⟨"lcd", [.locally], false⟩,
  ⟨"lchdir", [.locally], false⟩,
  ⟨"lls", [.locally], false⟩,
  ⟨"lmkdir", [.locally], false⟩,
  ⟨"ln", [.remote, .remote], false⟩,
  ⟨"lpwd", [], false⟩,
  ⟨"ls", [.remote], false⟩,
  ⟨"lumask", [.none], false⟩,
  ⟨"mget", [.remote, .locally], false⟩,
  ⟨"mkdir", [.remote], false⟩,
  ⟨"mput", [.locally, .remote], false⟩,
  ⟨"progress", [], false⟩,
  ⟨"put", [.locally, .remote], false⟩,
  ⟨"pwd", [], false⟩,
  ⟨"quit", [], false⟩,
  ⟨"reget", [.remote, .locally], false⟩,
  ⟨"rename", [.remote, .remote], false⟩,
  ⟨"reput", [.locally, .remote], false⟩,
  ⟨"rm", [.remote], true⟩,
  ⟨"rmdir", [.remote], false⟩,
  ⟨"symlink", [.remote, .remote], false⟩,
  ⟨"version", [], false⟩]

/-- The side of an operand of a verb, counting from one. -/
def operandSpace (verb : List Char) (operand : Nat) : Option ArgSpace :=
  match verbs.find? fun row => row.name.toList = verb.map Char.toLower with
  | none => none
  | some row =>
    if operand = 0 then none
    else
      match row.operands[operand - 1]? with
      | some space => some space
      | none => if row.variadic then row.operands.getLast? else none

/-- The letters of a flag. A dash alone is an operand. -/
def flagBody : List Char → Option (List Char)
  | '-' :: body => if body = [] then none else some body
  | _ => none

/-- Where the candidates for a word come from. -/
inductive Space where
  | verb
  | remote
  | locally
  | nothing

def Space.ofOperand : Option ArgSpace → Space
  | some .remote => .remote
  | some .locally => .locally
  | some .none | none => .nothing

def isFlag : List Char → Bool
  | '-' :: body => body ≠ []
  | _ => false

def WordSpan.space (span : WordSpan) : Space :=
  match span.before with
  | [] => .verb
  | verb :: args =>
    .ofOperand (operandSpace verb ((args.filter fun word => !isFlag word).length + 1))

/-- The side of the operand behind the words of a line, with the parser's words and flags. -/
def nextSpace : List (List Char) → Space
  | [] => .verb
  | verb :: rest =>
    .ofOperand (operandSpace verb ((rest.filter fun word => (flagBody word).isNone).length + 1))

/-! ### The states of the strict tokenizer -/

/-- Where the strict tokenizer stands. -/
structure Tokens where
  words : List (List Char)
  cur : List Char
  hasWord : Bool
  quote : Quote
  escaped : Bool

def Tokens.step (tokens : Tokens) (c : Char) : Tokens :=
  if tokens.escaped then { tokens with cur := pushLiteral tokens.cur c, escaped := false }
  else if tokens.quote = .none ∧ isBlank c then
    if tokens.hasWord then
      { tokens with words := tokens.words ++ [tokens.cur], cur := [], hasWord := false }
    else tokens
  else if (tokens.quote = .none ∨ tokens.quote = .double) ∧ c = '\\' then
    { tokens with hasWord := true, escaped := true }
  else if tokens.quote = .none ∧ c = '"' then { tokens with hasWord := true, quote := .double }
  else if tokens.quote = .none ∧ c = apostrophe then
    { tokens with hasWord := true, quote := .single }
  else if (tokens.quote = .double ∧ c = '"') ∨ (tokens.quote = .single ∧ c = apostrophe) then
    { tokens with quote := .none }
  else if tokens.quote = .none then { tokens with cur := tokens.cur ++ [c], hasWord := true }
  else { tokens with cur := pushLiteral tokens.cur c, hasWord := true }

/-- What the line is cut into when it ends here. -/
def Tokens.finish (tokens : Tokens) : Except ParseError (List (List Char)) :=
  if tokens.quote = .none ∧ tokens.escaped = false then
    .ok (if tokens.hasWord then tokens.words ++ [tokens.cur] else tokens.words)
  else .error .unterminatedQuote

theorem tokenize_steps (rest : List Char) :
    (∀ words cur hasWord, tokenizeFrom words cur hasWord rest =
      (rest.foldl Tokens.step ⟨words, cur, hasWord, .none, false⟩).finish) ∧
    (∀ words cur, tokenizeDouble words cur rest =
      (rest.foldl Tokens.step ⟨words, cur, true, .double, false⟩).finish) ∧
    ∀ words cur, tokenizeSingle words cur rest =
      (rest.foldl Tokens.step ⟨words, cur, true, .single, false⟩).finish := by
  induction length : rest.length using Nat.strongRecOn generalizing rest with
  | ind n inductionHypothesis =>
    subst length
    cases rest with
    | nil =>
      refine ⟨fun words cur hasWord => ?_, fun words cur => ?_, fun words cur => ?_⟩
      · rw [tokenizeFrom]; rfl
      · rw [tokenizeDouble]; rfl
      · rw [tokenizeSingle]; rfl
    | cons c rest =>
      obtain ⟨bare, double, single⟩ := inductionHypothesis rest.length (Nat.lt_succ_self _) rest rfl
      refine ⟨fun words cur hasWord => ?_, fun words cur => ?_, fun words cur => ?_⟩
      · rw [tokenizeFrom.eq_def, foldl_cons]
        dsimp only
        by_cases blank : isBlank c
        · cases hasWord <;> simp [Tokens.step, blank, bare]
        by_cases escape : c = '\\'
        · subst escape
          cases rest with
          | nil => simp [Tokens.step, Tokens.finish, isBlank]
          | cons next others =>
            obtain ⟨later, -⟩ := inductionHypothesis others.length
              (by simp only [length_cons]; omega) others rfl
            simp [Tokens.step, isBlank, later]
        by_cases isDouble : c = '"'
        · subst isDouble
          simp [Tokens.step, isBlank, double]
        by_cases isSingle : c = apostrophe
        · subst isSingle
          simp [Tokens.step, single, blank, escape, isDouble]
        · simp [Tokens.step, blank, escape, isDouble, isSingle, bare]
      · rw [tokenizeDouble.eq_def, foldl_cons]
        dsimp only
        by_cases isDouble : c = '"'
        · subst isDouble
          simp [Tokens.step, bare]
        by_cases escape : c = '\\'
        · subst escape
          cases rest with
          | nil => simp [Tokens.step, Tokens.finish]
          | cons next others =>
            obtain ⟨-, later, -⟩ := inductionHypothesis others.length
              (by simp only [length_cons]; omega) others rfl
            simp [Tokens.step, later]
        · simp [Tokens.step, isDouble, escape, double]
      · rw [tokenizeSingle, foldl_cons]
        by_cases isSingle : c = apostrophe
        · subst isSingle
          simp [Tokens.step, bare]
        · simp [Tokens.step, isSingle, single]

theorem tokenize_eq_finish (line : List Char) :
    tokenize line = (line.foldl Tokens.step ⟨[], [], false, .none, false⟩).finish :=
  (tokenize_steps line).1 [] [] false

/-! ### Escaped text -/

/-- Text in which every backslash stands in front of a letter that it is kept for. -/
inductive Escaped : List Char → Prop
  | nil : Escaped []
  | bare {c : Char} {rest : List Char} (plain : c ≠ '\\') (others : Escaped rest) :
      Escaped (c :: rest)
  | literal {c : Char} {rest : List Char} (magic : isMagic c = true) (others : Escaped rest) :
      Escaped ('\\' :: c :: rest)

theorem unescape_cons_of_ne {c : Char} (plain : c ≠ '\\') (rest : List Char) :
    unescape (c :: rest) = c :: unescape rest := by
  rw [unescape]
  · intro isEscape
    exact absurd isEscape plain
  · intro next others isEscape
    exact absurd isEscape plain

theorem Escaped.unescape_append {first : List Char} (escaped : Escaped first)
    (second : List Char) : unescape (first ++ second) = unescape first ++ unescape second := by
  induction escaped with
  | nil => rfl
  | bare plain _ inductionHypothesis =>
    rw [cons_append, unescape_cons_of_ne plain, inductionHypothesis,
      unescape_cons_of_ne plain, cons_append]
  | literal magic _ inductionHypothesis =>
    rw [cons_append, cons_append, unescape, inductionHypothesis, unescape,
      cons_append]

theorem Escaped.append {first second : List Char} (escaped : Escaped first)
    (later : Escaped second) : Escaped (first ++ second) := by
  induction escaped with
  | nil => exact later
  | bare plain _ inductionHypothesis => exact .bare plain inductionHypothesis
  | literal magic _ inductionHypothesis => exact .literal magic inductionHypothesis

theorem escaped_pushLiteral {cur : List Char} (escaped : Escaped cur) (c : Char) :
    Escaped (pushLiteral cur c) := by
  rw [pushLiteral]
  split_ifs with magic
  · exact escaped.append (.literal magic .nil)
  · refine escaped.append (.bare ?_ .nil)
    rintro rfl
    exact magic rfl

theorem unescape_pushLiteral {cur : List Char} (escaped : Escaped cur) (c : Char) :
    unescape (pushLiteral cur c) = unescape cur ++ [c] := by
  rw [pushLiteral]
  split_ifs with magic
  · rw [escaped.unescape_append, unescape, unescape]
  · rw [escaped.unescape_append, unescape_cons_of_ne, unescape]
    rintro rfl
    exact magic rfl

/-! ### The two tokenizers together -/

/-- What the lenient tokenizer has read is what the strict one has read, bare. -/
structure Agrees (tokens : Tokens) (scan : Scan) : Prop where
  words : tokens.words.map unescape = scan.before
  text : unescape tokens.cur = scan.text
  hasWord : tokens.hasWord = scan.inWord
  quote : tokens.quote = scan.quote
  escaped : tokens.escaped = scan.escaped
  escapedWords : ∀ word ∈ tokens.words, Escaped word
  escapedCur : Escaped tokens.cur

theorem Scan.enter_eq (scan : Scan) (i : Nat) :
    scan.enter i = { scan with inWord := true, start := if scan.inWord then scan.start else i } := by
  obtain ⟨before, text, start, inWord, quote, escaped⟩ := scan
  cases inWord <;> rfl

variable {tokens : Tokens} {scan : Scan}

theorem Agrees.step (agrees : Agrees tokens scan) (i : Nat) (c : Char) :
    Agrees (tokens.step c) (scan.step i c) := by
  obtain ⟨before, text, start, inWord, quote, escaped⟩ := scan
  obtain ⟨rfl, rfl, rfl, rfl, rfl, escapedWords, escapedCur⟩ := agrees
  have literal : unescape (pushLiteral tokens.cur c) = unescape tokens.cur ++ [c] :=
    unescape_pushLiteral escapedCur c
  have escapedLiteral := escaped_pushLiteral escapedCur c
  fun_cases Tokens.step tokens c with
  | case1 isEscaped =>
    rw [Scan.step, if_pos isEscaped]
    exact ⟨rfl, literal, rfl, rfl, rfl, escapedWords, escapedLiteral⟩
  | case2 notEscaped blank isWord =>
    rw [Scan.step, if_neg notEscaped, if_pos blank, if_pos isWord]
    refine ⟨map_append, rfl, rfl, rfl, rfl, ?_, .nil⟩
    intro word member
    rcases mem_append.mp member with before | last
    · exact escapedWords word before
    · rw [mem_singleton.mp last]
      exact escapedCur
  | case3 notEscaped blank noWord =>
    rw [Scan.step, if_neg notEscaped, if_pos blank, if_neg noWord]
    exact ⟨rfl, rfl, rfl, rfl, rfl, escapedWords, escapedCur⟩
  | case4 notEscaped notBlank escape =>
    rw [Scan.step, if_neg notEscaped, if_neg notBlank, if_pos escape, Scan.enter_eq]
    exact ⟨rfl, rfl, rfl, rfl, rfl, escapedWords, escapedCur⟩
  | case5 notEscaped notBlank notEscape opens =>
    rw [Scan.step, if_neg notEscaped, if_neg notBlank, if_neg notEscape, if_pos opens,
      Scan.enter_eq]
    exact ⟨rfl, rfl, rfl, rfl, rfl, escapedWords, escapedCur⟩
  | case6 notEscaped notBlank notEscape notDouble opens =>
    rw [Scan.step, if_neg notEscaped, if_neg notBlank, if_neg notEscape, if_neg notDouble,
      if_pos opens, Scan.enter_eq]
    exact ⟨rfl, rfl, rfl, rfl, rfl, escapedWords, escapedCur⟩
  | case7 notEscaped notBlank notEscape notDouble notSingle closes =>
    rw [Scan.step, if_neg notEscaped, if_neg notBlank, if_neg notEscape, if_neg notDouble,
      if_neg notSingle, if_pos closes]
    exact ⟨rfl, rfl, rfl, rfl, rfl, escapedWords, escapedCur⟩
  | case8 notEscaped notBlank notEscape notDouble notSingle notClosing bare =>
    rw [Scan.step, if_neg notEscaped, if_neg notBlank, if_neg notEscape, if_neg notDouble,
      if_neg notSingle, if_neg notClosing, Scan.enter_eq]
    have plain : c ≠ '\\' := fun same => notEscape ⟨.inl bare, same⟩
    refine ⟨rfl, ?_, rfl, rfl, rfl, escapedWords, escapedCur.append (.bare plain .nil)⟩
    exact (escapedCur.unescape_append [c]).trans
      (congrArg (unescape tokens.cur ++ ·) (unescape_cons_of_ne plain []))
  | case9 notEscaped notBlank notEscape notDouble notSingle notClosing quoted =>
    rw [Scan.step, if_neg notEscaped, if_neg notBlank, if_neg notEscape, if_neg notDouble,
      if_neg notSingle, if_neg notClosing, Scan.enter_eq]
    exact ⟨rfl, literal, rfl, rfl, rfl, escapedWords, escapedLiteral⟩

theorem Agrees.run (agrees : Agrees tokens scan) (i : Nat) (line : List Char) :
    Agrees (line.foldl Tokens.step tokens) (scanFrom scan i line) := by
  induction line generalizing tokens scan i with
  | nil => exact agrees
  | cons c rest inductionHypothesis => exact inductionHypothesis (agrees.step i c) _

theorem agrees_start (start : Nat) :
    Agrees ⟨[], [], false, .none, false⟩ ⟨[], [], start, false, .none, false⟩ :=
  ⟨rfl, rfl, rfl, rfl, rfl, forall_mem_nil _, .nil⟩

/-- What is cut up to here, bare. -/
theorem Agrees.map_finish {result : List (List Char)} (agrees : Agrees tokens scan)
    (accepts : tokens.finish = .ok result) :
    result.map unescape = scan.before ++ (if scan.inWord then [scan.text] else []) ∧
      ∀ word ∈ result, Escaped word := by
  rw [Tokens.finish] at accepts
  split_ifs at accepts with _ word
  · cases accepts
    refine ⟨?_, fun found member => ?_⟩
    · rw [map_append, agrees.words, map_singleton, agrees.text, ← agrees.hasWord, word,
        if_pos rfl]
    · rcases mem_append.mp member with before | last
      · exact agrees.escapedWords found before
      · rw [mem_singleton.mp last]
        exact agrees.escapedCur
  · cases accepts
    refine ⟨?_, agrees.escapedWords⟩
    rw [agrees.words, ← agrees.hasWord, if_neg word, append_nil]

/-- A word begins where it is entered. -/
theorem start_step (scan : Scan) (i : Nat) (c : Char) : (scan.step i c).inWord = true →
    (scan.step i c).start = if scan.inWord then scan.start else i := by
  have entered : (scan.enter i).start = if scan.inWord then scan.start else i :=
    congrArg Scan.start (scan.enter_eq i)
  fun_cases Scan.step scan i c with
  | case1 => exact fun within => (if_pos within).symm
  | case2 => exact fun within => absurd within Bool.false_ne_true
  | case3 => exact fun within => (if_pos within).symm
  | case4 => exact fun _ => entered
  | case5 => exact fun _ => entered
  | case6 => exact fun _ => entered
  | case7 => exact fun within => (if_pos within).symm
  | case8 => exact fun _ => entered

/-- A word that is open began before here. -/
theorem start_lt {i : Nat} (began : scan.inWord = true → scan.start < i) (line : List Char) :
    (scanFrom scan i line).inWord = true →
      (scanFrom scan i line).start < i + utf8Len line := by
  induction line generalizing scan i with
  | nil => exact began
  | cons c rest inductionHypothesis =>
    have positive := c.utf8Size_pos
    have length : i + utf8Len (c :: rest) = i + c.utf8Size + utf8Len rest := by
      rw [utf8Len, map_cons, sum_cons, utf8Len, Nat.add_assoc]
    rw [length]
    refine @inductionHypothesis (scan.step i c) (i + c.utf8Size) fun within => ?_
    rw [start_step scan i c within]
    split_ifs with isWord
    · exact Nat.lt_of_lt_of_le (began isWord) (Nat.le_add_right ..)
    · exact Nat.lt_add_of_pos_right positive

/-! ### Completion counts as the parser does -/

variable {word : List Char}

theorem isFlag_unescape (escaped : Escaped word) :
    (!isFlag (unescape word)) = (flagBody word).isNone := by
  cases escaped with
  | nil => rfl
  | @bare c rest plain others =>
    rw [unescape_cons_of_ne plain]
    by_cases dash : c = '-'
    · subst dash
      cases others with
      | nil => rfl
      | bare plain others =>
        rw [unescape_cons_of_ne plain]
        rfl
      | literal magic others =>
        rw [unescape]
        rfl
    · rw [isFlag, flagBody]
      · rfl
      · intro body same
        exact dash (cons.inj same).1
      · intro body same
        exact dash (cons.inj same).1
  | @literal c rest magic others =>
    rw [unescape, isFlag, flagBody]
    · rfl
    · intro body same
      cases (cons.inj same).1
    · rintro body same
      rw [(cons.inj same).1] at magic
      cases magic

theorem unescape_of_notMem (plain : '\\' ∉ word) : unescape word = word := by
  induction word with
  | nil => rfl
  | cons c rest inductionHypothesis =>
    rw [mem_cons, not_or] at plain
    rw [unescape_cons_of_ne (Ne.symm plain.1), inductionHypothesis plain.2]

/-- Where a backslash is kept, a letter that it is kept for stands. -/
theorem exists_magic_of_mem (escaped : Escaped word) (kept : '\\' ∈ word) :
    ∃ c ∈ unescape word, isMagic c = true := by
  induction escaped with
  | nil => cases kept
  | bare plain _ inductionHypothesis =>
    rw [unescape_cons_of_ne plain]
    rcases mem_cons.mp kept with same | later
    · exact absurd same.symm plain
    · obtain ⟨found, member, magic⟩ := inductionHypothesis later
      exact ⟨found, mem_cons_of_mem _ member, magic⟩
  | @literal c rest magic _ _ =>
    rw [unescape]
    exact ⟨c, mem_cons_self .., magic⟩

theorem toLower_of_isMagic {c : Char} (magic : isMagic c = true) : c.toLower = c := by
  simp only [isMagic, Bool.or_eq_true, decide_eq_true_eq] at magic
  rcases magic with (((rfl | rfl) | rfl) | rfl) | rfl <;> rfl

/-- A verb with one of these letters takes no operand. -/
theorem operandSpace_of_isMagic {verb : List Char} (operand : Nat)
    (magic : ∃ c ∈ verb, isMagic c = true) : operandSpace verb operand = none := by
  obtain ⟨c, member, isMagic⟩ := magic
  have table : verbs.all (fun row => row.name.toList.all (fun c => !Shell.isMagic c) ||
      (decide (row.operands = []) && !row.variadic)) = true := by decide
  rw [operandSpace]
  cases found : verbs.find? fun row => row.name.toList = verb.map Char.toLower with
  | none => rfl
  | some row =>
    have isRow : row.name.toList = verb.map Char.toLower := by
      simpa using find?_some found
    have entry := all_eq_true.mp table row (mem_of_find?_eq_some found)
    have within : c ∈ row.name.toList := by
      rw [isRow]
      exact mem_map.mpr ⟨c, member, toLower_of_isMagic isMagic⟩
    have notPlain : row.name.toList.all (fun c => !Shell.isMagic c) = false := by
      refine Bool.eq_false_iff.mpr fun plain => ?_
      have := all_eq_true.mp plain c within
      rw [isMagic] at this
      cases this
    rw [notPlain, Bool.false_or, Bool.and_eq_true, decide_eq_true_eq, Bool.not_eq_true'] at entry
    simp [entry.1, entry.2]

theorem operandSpace_unescape {verb : List Char} (escaped : Escaped verb) (operand : Nat) :
    operandSpace (unescape verb) operand = operandSpace verb operand := by
  by_cases kept : '\\' ∈ verb
  · rw [operandSpace_of_isMagic operand (exists_magic_of_mem escaped kept),
      operandSpace_of_isMagic operand ⟨'\\', kept, rfl⟩]
  · rw [unescape_of_notMem kept]

/-- The side that the bare words give is the side that the parser's words give. -/
theorem space_eq_nextSpace {span : WordSpan} {words : List (List Char)}
    (bare : words.map unescape = span.before) (escaped : ∀ word ∈ words, Escaped word) :
    span.space = nextSpace words := by
  rw [WordSpan.space, ← bare]
  cases words with
  | nil => rfl
  | cons verb rest =>
    have flags : (rest.map unescape).filter (fun word => !isFlag word) =
        (rest.filter fun word => (flagBody word).isNone).map unescape := by
      rw [filter_map]
      refine congrArg (List.map unescape) (filter_congr fun word member => ?_)
      exact isFlag_unescape (escaped word (mem_cons_of_mem _ member))
    rw [map_cons, nextSpace]
    dsimp only
    rw [flags, length_map, operandSpace_unescape (escaped verb (mem_cons_self ..))]

def quotedLine : List Char := "get \"a*b\" c d".toList

def quotedWords : List (List Char) := [['g', 'e', 't'], ['a', '\\', '*', 'b'], ['c']]

end Oryxis.Shell

/-
This file is what a Tab inserts: the candidates that go on from what was typed, the path they
complete, and the text that stands for the path in the line.

What is inserted parses back, in the three styles of quoting. Two things do not: a backslash
behind a directory is an escape, unless the word is in single quotes, and an empty name
outside quotes is no word.
-/

import Oryxis.Shell.Words
import Mathlib.Data.List.DropRight

namespace Oryxis.Shell

open Library List

/-! ### The answer to a Tab -/

/-- A name, and whether it invites another component. -/
structure Candidate where
  name : List Char
  isDir : Bool

inductive Completion where
  | insert (text : List Char)
  | list (names : List (List Char))
  | nothing
  deriving DecidableEq

/-- The directory to list, and what its names are to begin with. -/
def splitPath (word : List Char) (sep : Char) : Option (List Char) × List Char :=
  if sep ∈ word then
    (some (word.rdropWhile (· ≠ sep)).dropLast, word.rtakeWhile (· ≠ sep))
  else (none, word)

def rebuild (dir : Option (List Char)) (sep : Char) (name : List Char) : List Char :=
  match dir with
  | none => name
  | some dir => dir ++ [sep] ++ name

/-- What an unquoted word cannot carry bare. -/
def isSpecial (c : Char) : Bool :=
  c = ' ' || c = '\t' || c = '"' || c = apostrophe || c = '\\' || c = '*' || c = '?' || c = '[' ||
    c = ']'

def escapeBare (path : List Char) : List Char :=
  path.flatMap fun c => if isSpecial c then ['\\', c] else [c]

def escapeDouble (path : List Char) : List Char :=
  path.flatMap fun c => if c = '"' || c = '\\' then ['\\', c] else [c]

/-- The quoting to write a path in. -/
def style (path : List Char) (started : Quote) : Quote :=
  match started with
  | .double => .double
  | .single => if apostrophe ∈ path then .double else .single
  | .none =>
    if '\\' ∉ path then .none
    else if apostrophe ∈ path then .double
    else .single

def opened (style : Quote) (path : List Char) : List Char :=
  match style with
  | .none => escapeBare path
  | .single => apostrophe :: path
  | .double => '"' :: escapeDouble path

def closing : Quote → List Char
  | .none => []
  | .single => [apostrophe]
  | .double => ['"']

def renderInsert (path : List Char) (quote : Quote) (sep : Char) (finished : Option Bool) :
    List Char :=
  opened (style path quote) path ++
    match finished with
    | none => []
    | some true => [sep]
    | some false => closing (style path quote) ++ [' ']

/-- The letters two texts begin with. -/
def shared : List Char → List Char → List Char
  | a :: first, b :: second => if a = b then a :: shared first second else []
  | _, _ => []

def narrow (common : List Char) : List (List Char) → List Char
  | [] => common
  | name :: names => if shared common name = [] then [] else narrow (shared common name) names

def commonPrefix : List (List Char) → Option (List Char)
  | [] => none
  | first :: names => some (narrow first names)

/-- The candidates that go on from what was typed. A name with a dot has to be asked for. -/
def matching (typed : List Char) (candidates : List Candidate) : List Candidate :=
  (candidates.filter fun c => typed.isPrefixOf c.name).filter fun c =>
    ['.'].isPrefixOf typed || !(['.'].isPrefixOf c.name)

def plan (typed : List Char) (dir : Option (List Char)) (sep : Char) (quote : Quote)
    (candidates : List Candidate) : Completion :=
  match matching typed candidates with
  | [] => .nothing
  | [only] => .insert (renderInsert (rebuild dir sep only.name) quote sep (some only.isDir))
  | several =>
    let common := (commonPrefix (several.map Candidate.name)).getD []
    if utf8Len common > utf8Len typed then
      .insert (renderInsert (rebuild dir sep common) quote sep none)
    else .list (several.map fun c => if c.isDir then c.name ++ [sep] else c.name)

/-- What a Tab does with the word under the cursor. -/
def WordSpan.plan (span : WordSpan) (sep : Char) (candidates : List Candidate) : Completion :=
  Shell.plan (splitPath span.text sep).2 (splitPath span.text sep).1 sep span.quote candidates

/-- The line with a text for what stands between two bytes, and the byte behind that text. -/
def applyCompletion (line : List Char) (cursor start : Nat) (text : List Char) :
    Option (List Char × Nat) :=
  match cutAt line (min start cursor), cutAt line cursor with
  | some (first, _), some (_, rest) => some (first ++ text ++ rest, min start cursor + utf8Len text)
  | _, _ => none

/-- Whether a word has a wildcard. -/
def hasMagic : List Char → Bool
  | [] => false
  | '\\' :: rest =>
    match rest with
    | [] => false
    | _ :: others => hasMagic others
  | c :: rest => c = '*' || c = '?' || c = '[' || hasMagic rest

/-! ### What is inserted parses back -/

/-- The completed path, and for a single candidate whether it is a directory. -/
def WordSpan.completed (span : WordSpan) (sep : Char) (candidates : List Candidate) :
    Option (List Char × Option Bool) :=
  match matching (splitPath span.text sep).2 candidates with
  | [] => none
  | [only] => some (rebuild (splitPath span.text sep).1 sep only.name, some only.isDir)
  | several =>
    let common := (commonPrefix (several.map Candidate.name)).getD []
    if utf8Len common > utf8Len (splitPath span.text sep).2 then
      some (rebuild (splitPath span.text sep).1 sep common, none)
    else none

/-- The edited line gives the path back, behind the words that stood before it. For a file the
word is the one in front of the blank, and the strict tokenizer has it as a word without a
wildcard. -/
def ParsesBack (edited : List Char) (next : Nat) (before : List (List Char)) (sep : Char)
    (path : List Char) : Option Bool → Prop
  | none => ∃ span, wordAt edited next = some span ∧ span.before = before ∧ span.text = path
  | some true =>
    ∃ span, wordAt edited next = some span ∧ span.before = before ∧ span.text = path ++ [sep]
  | some false =>
    (∃ span, wordAt edited (next - 1) = some span ∧ span.before = before ∧ span.text = path) ∧
    ∃ head tail words operand, cutAt edited next = some (head, tail) ∧
      tokenize head = .ok (words ++ [operand]) ∧ words.map unescape = before ∧
      unescape operand = path ∧ hasMagic operand = false

/-- Whatever a Tab inserts parses back. -/
def TabParsesBack (line : List Char) (cursor : Nat) (sep : Char) (candidates : List Candidate) :
    Prop :=
  ∀ span text, wordAt line cursor = some span → span.plan sep candidates = .insert text →
    ∃ path finished edited next, span.completed sep candidates = some (path, finished) ∧
      applyCompletion line cursor span.start text = some (edited, next) ∧
      ParsesBack edited next span.before sep path finished

/-- A directory with a backslash behind it is in single quotes, and a file has a name or quotes. -/
def Carried (quote : Quote) (sep : Char) (path : List Char) (isDir : Bool) : Prop :=
  if isDir then
    sep = '\\' → (quote = .single ∨ quote = .none ∧ '\\' ∈ path) ∧ apostrophe ∉ path
  else quote = .none → path ≠ []

/-! ### Literal text -/

/-- A path, with every letter taken literally. -/
def literally (cur path : List Char) : List Char := path.foldl pushLiteral cur

theorem escaped_literally {cur : List Char} (escaped : Escaped cur) (path : List Char) :
    Escaped (literally cur path) := by
  induction path generalizing cur with
  | nil => exact escaped
  | cons c rest inductionHypothesis => exact inductionHypothesis (escaped_pushLiteral escaped c)

theorem unescape_literally {cur : List Char} (escaped : Escaped cur) (path : List Char) :
    unescape (literally cur path) = unescape cur ++ path := by
  induction path generalizing cur with
  | nil => rw [literally, foldl_nil, append_nil]
  | cons c rest inductionHypothesis =>
    have later := inductionHypothesis (escaped_pushLiteral escaped c)
    rw [unescape_pushLiteral escaped c, append_assoc] at later
    exact later

variable {c : Char}

theorem hasMagic_cons (plain : c ≠ '\\') (rest : List Char) :
    hasMagic (c :: rest) = ((c = '*' || c = '?' || c = '[') || hasMagic rest) := by
  rw [hasMagic]
  exact plain

theorem hasMagic_append {first second : List Char} (escaped : Escaped first) :
    hasMagic (first ++ second) = (hasMagic first || hasMagic second) := by
  induction escaped with
  | nil => rfl
  | bare plain _ inductionHypothesis =>
    rw [cons_append, hasMagic_cons plain, inductionHypothesis, hasMagic_cons plain,
      ← Bool.or_assoc]
  | literal magic _ inductionHypothesis =>
    rw [cons_append, cons_append, hasMagic, inductionHypothesis, hasMagic]

theorem hasMagic_literally {cur : List Char} (escaped : Escaped cur) (plain : hasMagic cur = false)
    (path : List Char) : hasMagic (literally cur path) = false := by
  induction path generalizing cur with
  | nil => exact plain
  | cons c rest inductionHypothesis =>
    refine inductionHypothesis (escaped_pushLiteral escaped c) ?_
    rw [pushLiteral]
    split_ifs with magic
    · rw [hasMagic_append escaped, plain]
      rfl
    · rw [hasMagic_append escaped, plain, Bool.false_or]
      simp only [isMagic, Bool.or_eq_true, decide_eq_true_eq, not_or] at magic
      simp [hasMagic, magic]

/-! ### What the tokenizer does with rendered text -/

variable {words : List (List Char)} {cur path : List Char} {hasWord : Bool}

theorem step_escaped (c : Char) :
    ['\\', c].foldl Tokens.step ⟨words, cur, hasWord, .none, false⟩ =
      ⟨words, pushLiteral cur c, true, .none, false⟩ := rfl

theorem step_plain (plain : ¬ isSpecial c = true) :
    [c].foldl Tokens.step ⟨words, cur, hasWord, .none, false⟩ =
      ⟨words, pushLiteral cur c, true, .none, false⟩ := by
  simp only [isSpecial, Bool.or_eq_true, decide_eq_true_eq, not_or] at plain
  simp [Tokens.step, pushLiteral, isBlank, isMagic, plain]

theorem run_escapeBare (path : List Char) :
    (escapeBare path).foldl Tokens.step ⟨words, cur, hasWord, .none, false⟩ =
      ⟨words, literally cur path, hasWord || decide (path ≠ []), .none, false⟩ := by
  induction path generalizing cur hasWord with
  | nil => simp [escapeBare, literally]
  | cons c rest inductionHypothesis =>
    rw [escapeBare, flatMap_cons, foldl_append, ← escapeBare]
    have step : (if isSpecial c then ['\\', c] else [c]).foldl Tokens.step
        ⟨words, cur, hasWord, .none, false⟩ = ⟨words, pushLiteral cur c, true, .none, false⟩ := by
      split_ifs with special
      · exact step_escaped c
      · exact step_plain special
    rw [step, inductionHypothesis]
    simp [literally]

theorem run_single (noApostrophe : apostrophe ∉ path) :
    path.foldl Tokens.step ⟨words, cur, true, .single, false⟩ =
      ⟨words, literally cur path, true, .single, false⟩ := by
  induction path generalizing cur with
  | nil => rfl
  | cons c rest inductionHypothesis =>
    rw [mem_cons, not_or] at noApostrophe
    have step : Tokens.step ⟨words, cur, true, .single, false⟩ c =
        ⟨words, pushLiteral cur c, true, .single, false⟩ := by
      simp [Tokens.step, Ne.symm noApostrophe.1]
    rw [foldl_cons, step, inductionHypothesis noApostrophe.2, literally, literally,
      foldl_cons]

theorem run_escapeDouble (path : List Char) :
    (escapeDouble path).foldl Tokens.step ⟨words, cur, true, .double, false⟩ =
      ⟨words, literally cur path, true, .double, false⟩ := by
  induction path generalizing cur with
  | nil => rfl
  | cons c rest inductionHypothesis =>
    rw [escapeDouble, flatMap_cons, foldl_append, ← escapeDouble]
    have step : (if c = '"' || c = '\\' then ['\\', c] else [c]).foldl Tokens.step
        ⟨words, cur, true, .double, false⟩ = ⟨words, pushLiteral cur c, true, .double, false⟩ := by
      split_ifs with special
      · rfl
      · simp only [Bool.or_eq_true, decide_eq_true_eq, not_or] at special
        simp [Tokens.step, special]
    rw [step, inductionHypothesis, literally, literally, foldl_cons]

theorem apostrophe_notMem_of_single {quote : Quote} (isSingle : style path quote = .single) :
    apostrophe ∉ path := by
  intro member
  cases quote with
  | none => rw [style] at isSingle; split_ifs at isSingle
  | single => rw [style] at isSingle; split_ifs at isSingle
  | double => cases isSingle

/-- The path as it is written, with the quotes open. -/
theorem run_opened (path : List Char) (quote : Quote) :
    (opened (style path quote) path).foldl Tokens.step ⟨words, [], false, .none, false⟩ =
      ⟨words, literally [] path, decide (style path quote ≠ .none ∨ path ≠ []),
        style path quote, false⟩ := by
  cases isStyle : style path quote with
  | none => rw [opened, run_escapeBare]; simp
  | single =>
    rw [opened, foldl_cons]
    exact run_single (apostrophe_notMem_of_single isStyle)
  | double =>
    rw [opened, foldl_cons]
    exact run_escapeDouble path

/-! ### Where a word begins -/

theorem scanFrom_append (scan : Scan) (i : Nat) (first second : List Char) :
    scanFrom scan i (first ++ second) =
      scanFrom (scanFrom scan i first) (i + utf8Len first) second := by
  induction first generalizing scan i with
  | nil => rfl
  | cons c rest inductionHypothesis =>
    rw [cons_append, scanFrom, inductionHypothesis, scanFrom, utf8Len, utf8Len,
      map_cons, sum_cons, Nat.add_assoc]

/-- In front of any text. -/
def Tokens.start : Tokens := ⟨[], [], false, .none, false⟩

/-- Between two words. -/
def Tokens.between (words : List (List Char)) : Tokens := ⟨words, [], false, .none, false⟩

/-- The text read so far has a cut where its last word begins, and in front of that it is words. -/
structure Placed (read : List Char) (tokens : Tokens) (scan : Scan) : Prop where
  run : read.foldl Tokens.step .start = tokens
  agrees : Agrees tokens scan
  idle : tokens.hasWord = false → tokens = .between tokens.words
  cut : tokens.hasWord = true → ∃ first rest, read = first ++ rest ∧ utf8Len first = scan.start ∧
    first.foldl Tokens.step .start = .between tokens.words

theorem words_step (tokens : Tokens) (c : Char) :
    (tokens.step c).hasWord = true → (tokens.step c).words = tokens.words := by
  fun_cases Tokens.step tokens c with
  | case2 => exact fun within => absurd within Bool.false_ne_true
  | _ => exact fun _ => rfl

variable {tokens : Tokens}

theorem idle_step (idle : tokens.hasWord = false → tokens = .between tokens.words) :
    (tokens.step c).hasWord = false → tokens.step c = .between (tokens.step c).words := by
  fun_cases Tokens.step tokens c with
  | case1 escaped =>
    intro outside
    rw [congrArg Tokens.escaped (idle outside)] at escaped
    cases escaped
  | case2 notEscaped blank =>
    intro _
    rw [blank.1, Bool.eq_false_iff.mpr notEscaped]
    rfl
  | case3 => exact idle
  | case7 _ _ _ _ _ closes =>
    intro outside
    rw [congrArg Tokens.quote (idle outside)] at closes
    rcases closes with ⟨isQuote, -⟩ | ⟨isQuote, -⟩ <;> cases isQuote
  | _ =>
    intro outside
    cases outside

theorem Placed.next {read : List Char} {scan : Scan} (placed : Placed read tokens scan) (c : Char) :
    Placed (read ++ [c]) (tokens.step c) (scan.step (utf8Len read) c) := by
  have run : (read ++ [c]).foldl Tokens.step .start = tokens.step c := by
    rw [foldl_append, placed.run]
    rfl
  have agrees := placed.agrees.step (utf8Len read) c
  refine ⟨run, agrees, idle_step placed.idle, fun within => ?_⟩
  rw [words_step tokens c within, start_step scan _ c (agrees.hasWord ▸ within)]
  cases hasWord : tokens.hasWord with
  | true =>
    obtain ⟨first, rest, rfl, length, isRun⟩ := placed.cut hasWord
    refine ⟨first, rest ++ [c], append_assoc .., ?_, isRun⟩
    rw [if_pos (placed.agrees.hasWord ▸ hasWord), length]
  | false =>
    refine ⟨read, [c], rfl, ?_, placed.run.trans (placed.idle hasWord)⟩
    rw [← placed.agrees.hasWord, hasWord, if_neg Bool.false_ne_true]

/-- In front of the word at the end of a text stands what is cut into the words before it. -/
theorem spanOf_cut (head : List Char) : ∃ first rest words, head = first ++ rest ∧
    utf8Len first = (spanOf head).start ∧ words.map unescape = (spanOf head).before ∧
    first.foldl Tokens.step .start = .between words := by
  have placed : Placed head (head.foldl Tokens.step .start)
      (scanFrom ⟨[], [], utf8Len head, false, .none, false⟩ 0 head) := by
    generalize utf8Len head = cursor
    induction head using List.reverseRecOn with
    | nil => exact ⟨rfl, agrees_start cursor, fun _ => rfl, fun none => by cases none⟩
    | append_singleton read c inductionHypothesis =>
      rw [scanFrom_append, Nat.zero_add, foldl_append]
      exact inductionHypothesis.next c
  rw [spanOf]
  dsimp only
  rw [← placed.agrees.words, ← placed.agrees.hasWord]
  cases hasWord : (head.foldl Tokens.step .start).hasWord with
  | true =>
    obtain ⟨first, rest, isHead, length, isRun⟩ := placed.cut hasWord
    exact ⟨first, rest, _, isHead, length, rfl, isRun⟩
  | false => exact ⟨head, [], _, (append_nil head).symm, rfl, rfl, placed.idle hasWord⟩

/-- The word at the end of a text, from what the strict tokenizer has read. -/
theorem spanOf_of_run {head : List Char} (isRun : head.foldl Tokens.step .start = tokens) :
    (spanOf head).text = unescape tokens.cur ∧ (spanOf head).before = tokens.words.map unescape := by
  have agrees := (agrees_start (utf8Len head)).run 0 head
  rw [show head.foldl Tokens.step ⟨[], [], false, .none, false⟩ = tokens from isRun] at agrees
  exact ⟨agrees.text.symm, agrees.words.symm⟩

/-! ### The three styles -/

theorem style_eq_single_iff {quote : Quote} : style path quote = .single ↔
    (quote = .single ∨ quote = .none ∧ '\\' ∈ path) ∧ apostrophe ∉ path := by
  cases quote with
  | double => simp [style]
  | single =>
    rw [style]
    split_ifs with quoted <;> simp [quoted]
  | none =>
    rw [style]
    split_ifs with plain quoted <;> simp_all

theorem style_eq_none_iff {quote : Quote} :
    style path quote = .none ↔ quote = .none ∧ '\\' ∉ path := by
  cases quote with
  | double => simp [style]
  | single =>
    rw [style]
    split_ifs <;> simp
  | none =>
    rw [style]
    split_ifs with plain quoted <;> simp_all

/-- There is a word, if only an empty one in quotes. -/
theorem opens_iff {quote : Quote} :
    (style path quote ≠ .none ∨ path ≠ []) ↔ (quote = .none → path ≠ []) := by
  rw [Ne, style_eq_none_iff]
  by_cases empty : path = []
  · simp [empty]
  · simp [empty]

theorem step_slash (quote : Quote) :
    Tokens.step ⟨words, cur, hasWord, quote, false⟩ '/' =
      ⟨words, cur ++ ['/'], true, quote, false⟩ := by
  cases quote <;> rfl

theorem step_backslash_single :
    Tokens.step ⟨words, cur, hasWord, .single, false⟩ '\\' =
      ⟨words, pushLiteral cur '\\', true, .single, false⟩ := rfl

theorem step_backslash {quote : Quote} (notSingle : quote ≠ .single) :
    Tokens.step ⟨words, cur, hasWord, quote, false⟩ '\\' = ⟨words, cur, true, quote, true⟩ := by
  cases quote with
  | single => exact absurd rfl notSingle
  | _ => rfl

theorem run_closing {quote : Quote} (within : quote ≠ .none → hasWord = true) :
    (closing quote).foldl Tokens.step ⟨words, cur, hasWord, quote, false⟩ =
      ⟨words, cur, hasWord, .none, false⟩ := by
  cases quote with
  | none => rfl
  | _ =>
    rw [within (by intro same; cases same)]
    rfl

theorem wordAt_append (head tail : List Char) :
    wordAt (head ++ tail) (utf8Len head) = some (spanOf head) := by
  have fits : min (utf8Len head) (utf8Len (head ++ tail)) = utf8Len head := by
    rw [utf8Len_append]
    omega
  rw [wordAt, fits, cutAt_eq_some_iff.mpr ⟨rfl, rfl⟩, Option.map_some]

/-- What an edited line has at its cursor, once its text is known. -/
theorem exists_wordAt {head tail : List Char} {next : Nat} {before : List (List Char)}
    {text : List Char} (isNext : utf8Len head = next)
    (isRun : head.foldl Tokens.step .start = tokens) (isBefore : tokens.words.map unescape = before) :
    (∃ span, wordAt (head ++ tail) next = some span ∧ span.before = before ∧ span.text = text) ↔
      unescape tokens.cur = text := by
  subst isNext
  obtain ⟨isText, isWords⟩ := spanOf_of_run isRun
  rw [wordAt_append]
  constructor
  · rintro ⟨span, isSpan, -, rfl⟩
    cases isSpan
    exact isText.symm
  · intro same
    exact ⟨_, rfl, isWords.trans isBefore, isText.trans same⟩

/-! ### When it does -/

section Rendered

variable {first tail : List Char} {before : List (List Char)} {quote : Quote} {sep : Char}

/-- Behind the words, the path as it is written. -/
theorem run_rendered (isFirst : first.foldl Tokens.step .start = .between words)
    (rest : List Char) :
    (first ++ (opened (style path quote) path ++ rest)).foldl Tokens.step .start =
      rest.foldl Tokens.step ⟨words, literally [] path,
        decide (style path quote ≠ .none ∨ path ≠ []), style path quote, false⟩ := by
  rw [foldl_append, foldl_append, isFirst, Tokens.between, run_opened]

theorem unescape_operand (path : List Char) : unescape (literally [] path) = path :=
  unescape_literally .nil path

/-- What is common to several candidates parses back. -/
theorem parsesBack_common (isFirst : first.foldl Tokens.step .start = .between words)
    (isBefore : words.map unescape = before) :
    ParsesBack (first ++ renderInsert path quote sep none ++ tail)
      (utf8Len (first ++ renderInsert path quote sep none)) before sep path none := by
  rw [ParsesBack, renderInsert]
  refine (exists_wordAt rfl (run_rendered isFirst []) isBefore).mpr ?_
  exact unescape_operand path

/-- A directory parses back unless its separator is read as an escape. -/
theorem parsesBack_dir (isFirst : first.foldl Tokens.step .start = .between words)
    (isBefore : words.map unescape = before) (separator : sep = '/' ∨ sep = '\\') :
    ParsesBack (first ++ renderInsert path quote sep (some true) ++ tail)
      (utf8Len (first ++ renderInsert path quote sep (some true))) before sep path (some true) ↔
      Carried quote sep path true := by
  rw [ParsesBack, renderInsert, Carried, if_pos rfl, ← style_eq_single_iff]
  have isRun := @run_rendered words path first quote isFirst [sep]
  rw [foldl_cons, foldl_nil] at isRun
  rcases separator with rfl | rfl
  · rw [step_slash] at isRun
    rw [exists_wordAt rfl isRun isBefore]
    refine iff_of_true ?_ fun same => absurd same (by decide)
    rw [(escaped_literally .nil path).unescape_append, unescape_operand]
    rfl
  · by_cases isSingle : style path quote = .single
    · rw [isSingle, step_backslash_single] at isRun
      rw [isSingle]
      rw [exists_wordAt rfl isRun isBefore]
      refine iff_of_true ?_ fun _ => rfl
      rw [unescape_pushLiteral (escaped_literally .nil path), unescape_operand]
    · rw [step_backslash isSingle] at isRun
      rw [exists_wordAt rfl isRun isBefore]
      refine iff_of_false ?_ fun single => isSingle (single rfl)
      dsimp only
      rw [unescape_operand]
      intro same
      simpa using congrArg List.length same

/-- A file parses back unless it is an empty name outside quotes. -/
theorem parsesBack_file (isFirst : first.foldl Tokens.step .start = .between words)
    (isBefore : words.map unescape = before) :
    ParsesBack (first ++ renderInsert path quote sep (some false) ++ tail)
      (utf8Len (first ++ renderInsert path quote sep (some false))) before sep path (some false) ↔
      Carried quote sep path false := by
  rw [ParsesBack, Carried, if_neg Bool.false_ne_true, ← opens_iff]
  have closed := @run_rendered words path first quote isFirst (closing (style path quote))
  have isRun := (@run_rendered words path first quote isFirst
    (closing (style path quote) ++ [' '])).trans (foldl_append ..)
  rw [run_closing fun quoted => decide_eq_true (.inl quoted)] at closed isRun
  -- The word ends in front of the blank.
  have word : ∃ span, wordAt (first ++ renderInsert path quote sep (some false) ++ tail)
      (utf8Len (first ++ renderInsert path quote sep (some false)) - 1) = some span ∧
      span.before = before ∧ span.text = path := by
    have split : first ++ renderInsert path quote sep (some false) ++ tail =
        (first ++ (opened (style path quote) path ++ closing (style path quote))) ++
          (' ' :: tail) := by
      simp [renderInsert]
    have length : utf8Len (first ++ (opened (style path quote) path ++
        closing (style path quote))) =
        utf8Len (first ++ renderInsert path quote sep (some false)) - 1 := by
      simp only [renderInsert, utf8Len_append]
      rw [show utf8Len [' '] = 1 from rfl]
      omega
    rw [split]
    exact (exists_wordAt length closed isBefore).mpr (unescape_operand path)
  rw [and_iff_right word]
  have accepts : tokenize (first ++ renderInsert path quote sep (some false)) =
      .ok (if style path quote ≠ .none ∨ path ≠ [] then words ++ [literally [] path]
        else words) := by
    rw [tokenize_eq_finish, renderInsert]
    refine (congrArg Tokens.finish isRun).trans ?_
    by_cases isWord : style path quote ≠ .none ∨ path ≠ []
    · simp only [isWord, decide_true, if_true]
      rfl
    · simp only [isWord, decide_false, if_false]
      rfl
  have isHead : cutAt (first ++ renderInsert path quote sep (some false) ++ tail)
      (utf8Len (first ++ renderInsert path quote sep (some false))) =
      some (first ++ renderInsert path quote sep (some false), tail) :=
    cutAt_eq_some_iff.mpr ⟨rfl, rfl⟩
  constructor
  · rintro ⟨head, rest, found, operand, cut, isWords, sameBefore, -⟩
    by_contra noWord
    rw [isHead] at cut
    cases cut
    rw [accepts, if_neg noWord] at isWords
    have lengths := congrArg List.length (isBefore.trans sameBefore.symm)
    rw [Except.ok.inj isWords] at lengths
    simp at lengths
  · intro isWord
    rw [if_pos isWord] at accepts
    exact ⟨_, _, words, _, isHead, accepts, isBefore, unescape_operand path,
      hasMagic_literally .nil rfl path⟩

end Rendered

theorem plan_insert {span : WordSpan} {sep : Char} {candidates : List Candidate}
    {text : List Char} (inserts : span.plan sep candidates = .insert text) :
    ∃ path finished, span.completed sep candidates = some (path, finished) ∧
      text = renderInsert path span.quote sep finished := by
  rw [WordSpan.plan, plan] at inserts
  rw [WordSpan.completed]
  split at inserts
  · cases inserts
  · cases inserts
    exact ⟨_, _, rfl, rfl⟩
  · dsimp only at inserts ⊢
    split_ifs at inserts with longer
    cases inserts
    rw [if_pos longer]
    exact ⟨_, _, rfl, rfl⟩

/-- The edited line, with the cursor behind what was inserted. -/
theorem applyCompletion_span {first rest tail : List Char} {start : Nat}
    (isStart : utf8Len first = start) (text : List Char) :
    applyCompletion (first ++ rest ++ tail) (utf8Len (first ++ rest)) start text =
      some (first ++ text ++ tail, utf8Len (first ++ text)) := by
  subst isStart
  have fits : min (utf8Len first) (utf8Len (first ++ rest)) = utf8Len first := by
    rw [utf8Len_append]
    omega
  rw [applyCompletion, fits, cutAt_eq_some_iff.mpr ⟨append_assoc first rest tail, rfl⟩,
    cutAt_eq_some_iff.mpr ⟨rfl, rfl⟩]
  dsimp only
  rw [utf8Len_append first text]

/-- What a Tab inserts parses back, unless it is a single directory whose backslash is an escape
or a single file without a name outside quotes. -/
theorem tabParsesBack_iff {line head tail : List Char} {cursor : Nat}
    (isHead : cutAt line cursor = some (head, tail)) {sep : Char}
    (separator : sep = '/' ∨ sep = '\\') (candidates : List Candidate) :
    TabParsesBack line cursor sep candidates ↔
      ∀ span only, wordAt line cursor = some span →
        matching (splitPath span.text sep).2 candidates = [only] →
        Carried span.quote sep (rebuild (splitPath span.text sep).1 sep only.name) only.isDir := by
  obtain ⟨rfl, rfl⟩ := cutAt_eq_some_iff.mp isHead
  obtain ⟨first, rest, words, isRest, isStart, isBefore, isFirst⟩ := spanOf_cut head
  have applies (text : List Char) :
      applyCompletion (head ++ tail) (utf8Len head) (spanOf head).start text =
        some (first ++ text ++ tail, utf8Len (first ++ text)) := by
    have applied := @applyCompletion_span first rest tail _ isStart text
    rwa [← isRest] at applied
  constructor
  · intro parses span only isSpan isOnly
    rw [wordAt_append] at isSpan
    cases isSpan
    obtain ⟨path, finished, edited, next, isPath, isEdited, back⟩ := parses (spanOf head) _
      (wordAt_append head tail) (by rw [WordSpan.plan, plan, isOnly])
    rw [applies] at isEdited
    cases isEdited
    rw [WordSpan.completed, isOnly] at isPath
    cases isPath
    cases isDir : only.isDir with
    | true =>
      rw [isDir] at back
      exact (parsesBack_dir isFirst isBefore separator).mp back
    | false =>
      rw [isDir] at back
      exact (parsesBack_file isFirst isBefore).mp back
  · intro carried span text isSpan inserts
    rw [wordAt_append] at isSpan
    cases isSpan
    obtain ⟨path, finished, isPath, rfl⟩ := plan_insert inserts
    refine ⟨path, finished, _, _, isPath, applies _, ?_⟩
    cases finished with
    | none => exact parsesBack_common isFirst isBefore
    | some isDir =>
      have here : Carried (spanOf head).quote sep path isDir := by
        rw [WordSpan.completed] at isPath
        split at isPath
        · cases isPath
        · rename_i only isOnly
          cases isPath
          exact carried (spanOf head) only (wordAt_append head tail) isOnly
        · dsimp only at isPath
          split_ifs at isPath
          cases isPath
      cases isDir with
      | true => exact (parsesBack_dir isFirst isBefore separator).mpr here
      | false => exact (parsesBack_file isFirst isBefore).mpr here

theorem tabParsesBack_brackets :
    TabParsesBack ['g', 'e', 't', ' ', 'a'] 5 '/' [⟨['a', '[', '1', ']'], false⟩] := by
  refine (@tabParsesBack_iff ['g', 'e', 't', ' ', 'a'] ['g', 'e', 't', ' ', 'a'] [] 5 (by decide)
    '/' (.inl rfl) _).mpr fun span only isSpan isOnly => ?_
  cases (show some (WordSpan.mk 4 ['a'] .none [['g', 'e', 't']]) = some span from isSpan)
  cases (show [Candidate.mk ['a', '[', '1', ']'] false] = [only] from isOnly)
  intro _ empty
  cases empty

/-- On a word without a separator, with the separator of Windows. -/
theorem not_tabParsesBack_backslash :
    ¬ TabParsesBack ['l', 'c', 'd', ' ', 'U'] 5 '\\' [⟨['U', 's'], true⟩] := by
  intro parses
  obtain ⟨path, finished, edited, next, isPath, isEdited, back⟩ :=
    parses ⟨4, ['U'], .none, [['l', 'c', 'd']]⟩ ['U', 's', '\\'] (by decide) (by decide)
  cases (show some (['U', 's'], some true) = some (path, finished) from isPath)
  cases (show some (['l', 'c', 'd', ' ', 'U', 's', '\\'], 7) = some (edited, next) from isEdited)
  obtain ⟨span, isSpan, -, isText⟩ := back
  cases (show some (WordSpan.mk 4 ['U', 's'] .none [['l', 'c', 'd']]) = some span from isSpan)
  cases isText

end Oryxis.Shell

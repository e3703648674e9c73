/-
This file proves where prompts are found the same way however the output of a host is cut,
in the runner of login scripts and in the watcher of a snippet's wait.

Escape sequences are taken out of one chunk at a time, without a memory of the chunk before:
a cut inside a sequence leaves the rest of it to be read as text. With every cut outside of
sequences nothing depends on the cuts, since what is kept of the earlier output is long
enough for whatever the next chunk may complete.
-/

import Oryxis.Library.Utf8
import Oryxis.Login.Runs
import Mathlib.Data.List.Infix

namespace Oryxis.Login

open Library List

/-! ### The watcher -/

/-- The last characters of a text that fit so many bytes. -/
def keepLast (keep : Nat) : List Char → List Char
  | [] => []
  | c :: rest => if utf8Len (c :: rest) ≤ keep then c :: rest else keepLast keep rest

/-- One pattern looked for in output, with the end of what was searched already. -/
structure OutputMatcher (Regex : Type) where
  pattern : CompiledPattern Regex
  carry : List Char

variable {Regex : Type} (matching : Matching Regex)

namespace OutputMatcher

def new (pattern : ExpectPattern) : Option (OutputMatcher Regex) :=
  (CompiledPattern.compile matching pattern).map fun compiled => ⟨compiled, []⟩

/-- Whether the pattern is found, and the watcher for the output that follows. -/
def feed (output : List UInt8) (matcher : OutputMatcher Regex) : Bool × OutputMatcher Regex :=
  let window := matcher.carry ++ stripAnsiLossy output
  match matcher.pattern with
  | .suffix text =>
    (decide (text <:+: matching.toLowercase window),
      { matcher with carry := keepLast (max (utf8Len text * 4) tailCap) window })
  | .regex regex =>
    (matching.isMatch regex window, { matcher with carry := keepLast tailCap window })

/-- Whether the pattern is found at some chunk. -/
def feedAny (matcher : OutputMatcher Regex) : List (List UInt8) → Bool
  | [] => false
  | output :: outputs =>
    let fed := matcher.feed matching output
    fed.1 || fed.2.feedAny outputs

end OutputMatcher

/-! ### Escape sequences -/

/-- Where the reader of escape sequences stands after a chunk. -/
def scanEnd : Scan → List UInt8 → Scan
  | scan, [] => scan
  | .text, byte :: rest => if byte = 0x1b then scanEnd .escape rest else scanEnd .text rest
  | .escape, byte :: rest =>
    if byte = 0x5b then scanEnd .csi rest
    else if byte = 0x5d then scanEnd .osc rest
    else scanEnd .text rest
  | .csi, byte :: rest =>
    if 0x40 ≤ byte ∧ byte ≤ 0x7e then scanEnd .text rest else scanEnd .csi rest
  | .osc, byte :: rest =>
    if byte = 0x07 then scanEnd .text rest
    else
      match rest with
      | [] => .osc
      | next :: others =>
        if byte = 0x1b ∧ next = 0x5c then scanEnd .text others else scanEnd .osc (next :: others)

/-- A chunk with no escape sequence unfinished at its end. -/
def EndsOutside (output : List UInt8) : Prop := scanEnd .text output = .text
  deriving Decidable

/-- What a byte outside of a sequence leaves. -/
def letterOf (byte : UInt8) : List Char :=
  if byte = 0x0d ∨ byte = 0x0a ∨ byte = 0x09 then [Char.ofNat byte.toNat]
  else if byte < 0x20 ∨ byte = 0x7f then []
  else [Char.ofNat byte.toNat]

theorem stripFrom_text_cons (byte : UInt8) (rest : List UInt8) :
    stripFrom .text (byte :: rest) =
      if byte = 0x1b then stripFrom .escape rest else letterOf byte ++ stripFrom .text rest := by
  rw [stripFrom, letterOf]
  split_ifs <;> rfl

variable {byte : UInt8}

theorem stripFrom_osc_cons_cons (other : ¬byte = 0x07) (next : UInt8) (others : List UInt8) :
    stripFrom .osc (byte :: next :: others) =
      if byte = 0x1b ∧ next = 0x5c then stripFrom .text others
      else stripFrom .osc (next :: others) :=
  if_neg other

theorem stripFrom_osc_bell (rest : List UInt8) :
    stripFrom .osc (0x07 :: rest) = stripFrom .text rest := by
  cases rest <;> rfl

theorem scanEnd_osc_bell (rest : List UInt8) :
    scanEnd .osc (0x07 :: rest) = scanEnd .text rest := by
  cases rest <;> rfl

theorem scanEnd_osc_cons_cons (other : ¬byte = 0x07) (next : UInt8) (others : List UInt8) :
    scanEnd .osc (byte :: next :: others) =
      if byte = 0x1b ∧ next = 0x5c then scanEnd .text others else scanEnd .osc (next :: others) :=
  if_neg other

variable {scan : Scan}

theorem stripFrom_append {first : List UInt8} (outside : scanEnd scan first = .text)
    (second : List UInt8) :
    stripFrom scan (first ++ second) = stripFrom scan first ++ stripFrom .text second := by
  induction scan, first using scanEnd.induct with
  | case1 scan =>
    rw [scanEnd] at outside
    rw [outside, nil_append, stripFrom, nil_append]
  | case2 rest inductionHypothesis =>
    rw [scanEnd, if_pos rfl] at outside
    rw [cons_append, stripFrom_text_cons, stripFrom_text_cons, if_pos rfl, if_pos rfl,
      inductionHypothesis outside]
  | case3 byte rest other inductionHypothesis =>
    rw [scanEnd, if_neg other] at outside
    rw [cons_append, stripFrom_text_cons, stripFrom_text_cons, if_neg other, if_neg other,
      inductionHypothesis outside, append_assoc]
  | case4 rest inductionHypothesis =>
    rw [scanEnd, if_pos rfl] at outside
    rw [cons_append, stripFrom, stripFrom, if_pos rfl, if_pos rfl,
      inductionHypothesis outside]
  | case5 rest other inductionHypothesis =>
    rw [scanEnd, if_neg other, if_pos rfl] at outside
    rw [cons_append, stripFrom, stripFrom, if_neg other, if_pos rfl, if_neg other, if_pos rfl,
      inductionHypothesis outside]
  | case6 byte rest bracket title inductionHypothesis =>
    rw [scanEnd, if_neg bracket, if_neg title] at outside
    rw [cons_append, stripFrom, stripFrom, if_neg bracket, if_neg title, if_neg bracket,
      if_neg title, inductionHypothesis outside]
  | case7 byte rest final inductionHypothesis =>
    rw [scanEnd, if_pos final] at outside
    rw [cons_append, stripFrom, stripFrom, if_pos final, if_pos final,
      inductionHypothesis outside]
  | case8 byte rest parameter inductionHypothesis =>
    rw [scanEnd, if_neg parameter] at outside
    rw [cons_append, stripFrom, stripFrom, if_neg parameter, if_neg parameter,
      inductionHypothesis outside]
  | case9 rest inductionHypothesis =>
    rw [scanEnd_osc_bell] at outside
    rw [cons_append, stripFrom_osc_bell, stripFrom_osc_bell, inductionHypothesis outside]
  | case10 byte bell =>
    have inside : scanEnd .osc [byte] = .osc := if_neg bell
    rw [inside] at outside
    cases outside
  | case11 byte bell next others ends inductionHypothesis =>
    rw [scanEnd_osc_cons_cons bell, if_pos ends] at outside
    rw [cons_append, cons_append, stripFrom_osc_cons_cons bell,
      stripFrom_osc_cons_cons bell, if_pos ends, if_pos ends, inductionHypothesis outside]
  | case12 byte bell next others inside inductionHypothesis =>
    rw [scanEnd_osc_cons_cons bell, if_neg inside] at outside
    rw [cons_append, cons_append, stripFrom_osc_cons_cons bell,
      stripFrom_osc_cons_cons bell, if_neg inside, if_neg inside, ← cons_append,
      inductionHypothesis outside]

variable {pieces : List (List UInt8)}

/-- Cuts outside of sequences leave what is read. -/
theorem stripAnsiLossy_flatten (outside : ∀ piece ∈ pieces.dropLast, EndsOutside piece) :
    stripAnsiLossy pieces.flatten = pieces.flatMap stripAnsiLossy := by
  induction pieces with
  | nil => rfl
  | cons piece pieces inductionHypothesis =>
    cases pieces with
    | nil => simp
    | cons next pieces =>
      rw [dropLast_cons_cons] at outside
      have ends := outside piece mem_cons_self
      have others := inductionHypothesis fun later member =>
        outside later (mem_cons_of_mem _ member)
      rw [flatten_cons, stripAnsiLossy, stripFrom_append ends, flatMap_cons, ← others]
      rfl

/-! ### The runner -/

/-- The tail after pieces is the end of all of what is read. -/
theorem tail_foldl_feed (runner : ScriptRunner Regex) (running : runner.done = false)
    (some : pieces ≠ []) :
    (pieces.foldl (fun runner piece => runner.feed piece) runner).tail =
      trimTail (runner.tail ++ pieces.flatMap stripAnsiLossy) := by
  induction pieces generalizing runner with
  | nil => exact absurd rfl some
  | cons piece pieces inductionHypothesis =>
    have fed : runner.feed piece =
        { runner with tail := trimTail (runner.tail ++ stripAnsiLossy piece) } := by
      rw [ScriptRunner.feed, running]
      rfl
    rw [foldl_cons, fed]
    cases pieces with
    | nil => simp
    | cons next pieces =>
      refine (inductionHypothesis { runner with tail := trimTail (runner.tail ++ stripAnsiLossy piece) }
        running (cons_ne_nil _ _)).trans ?_
      rw [trimTail_append, append_assoc, ← flatMap_cons]

theorem foldl_feed_of_done (runner : ScriptRunner Regex) (ended : runner.done = true)
    (pieces : List (List UInt8)) :
    pieces.foldl (fun runner piece => runner.feed piece) runner = runner := by
  induction pieces with
  | nil => rfl
  | cons piece pieces inductionHypothesis =>
    rw [foldl_cons, ScriptRunner.feed, if_pos ended, inductionHypothesis]

theorem tail_foldl_feed_eq (runner : ScriptRunner Regex) (some : pieces ≠ [])
    (outside : ∀ piece ∈ pieces.dropLast, EndsOutside piece) :
    (pieces.foldl (fun runner piece => runner.feed piece) runner).tail =
      (runner.feed pieces.flatten).tail := by
  cases running : runner.done with
  | true => rw [foldl_feed_of_done runner running, ScriptRunner.feed, if_pos running]
  | false =>
    rw [tail_foldl_feed runner running some, ScriptRunner.feed, running,
      stripAnsiLossy_flatten outside]
    rfl

/-! ### What is read -/

/-- The characters that are left when escape sequences and control bytes are taken out. -/
def isKept (c : Char) : Bool :=
  c = '\r' || c = '\n' || c = '\t' || (0x20 ≤ c.toNat && c.toNat ≠ 0x7f && c.toNat < 0x100)

variable {c : Char}

theorem toNat_lt_of_isKept (kept : isKept c = true) : c.toNat < 0x100 := by
  simp only [isKept, Bool.or_eq_true, Bool.and_eq_true, decide_eq_true_eq] at kept
  rcases kept with ((rfl | rfl) | rfl) | ⟨-, below⟩
  · decide
  · decide
  · decide
  · exact below

theorem isKept_of_mem_letterOf (member : c ∈ letterOf byte) :
    isKept c = true := by
  rw [letterOf] at member
  split_ifs at member with blank control
  · rw [mem_singleton.mp member]
    rcases blank with rfl | rfl | rfl <;> decide
  · cases member
  · rw [mem_singleton.mp member, isKept, toNat_ofNat_byte]
    rw [not_or, UInt8.lt_iff_toNat_lt, ← UInt8.toNat_inj] at control
    have fits := byte.toNat_lt
    have low : (0x20 : UInt8).toNat = 0x20 := rfl
    have delete : (0x7f : UInt8).toNat = 0x7f := rfl
    simp only [Bool.or_eq_true, Bool.and_eq_true, decide_eq_true_eq]
    omega

theorem isKept_of_mem_stripFrom {output : List UInt8} (member : c ∈ stripFrom scan output) :
    isKept c = true := by
  induction scan, output using scanEnd.induct with
  | case1 scan =>
    rw [stripFrom] at member
    cases member
  | case2 rest inductionHypothesis =>
    rw [stripFrom_text_cons, if_pos rfl] at member
    exact inductionHypothesis member
  | case3 byte rest other inductionHypothesis =>
    rw [stripFrom_text_cons, if_neg other] at member
    exact (mem_append.mp member).elim isKept_of_mem_letterOf inductionHypothesis
  | case4 rest inductionHypothesis =>
    rw [stripFrom, if_pos rfl] at member
    exact inductionHypothesis member
  | case5 rest other inductionHypothesis =>
    rw [stripFrom, if_neg other, if_pos rfl] at member
    exact inductionHypothesis member
  | case6 byte rest bracket title inductionHypothesis =>
    rw [stripFrom, if_neg bracket, if_neg title] at member
    exact inductionHypothesis member
  | case7 byte rest final inductionHypothesis =>
    rw [stripFrom, if_pos final] at member
    exact inductionHypothesis member
  | case8 byte rest parameter inductionHypothesis =>
    rw [stripFrom, if_neg parameter] at member
    exact inductionHypothesis member
  | case9 rest inductionHypothesis =>
    rw [stripFrom_osc_bell] at member
    exact inductionHypothesis member
  | case10 byte bell =>
    have nothing : stripFrom .osc [byte] = [] := if_neg bell
    rw [nothing] at member
    cases member
  | case11 byte bell next others ends inductionHypothesis =>
    rw [stripFrom_osc_cons_cons bell, if_pos ends] at member
    exact inductionHypothesis member
  | case12 byte bell next others inside inductionHypothesis =>
    rw [stripFrom_osc_cons_cons bell, if_neg inside] at member
    exact inductionHypothesis member

/-! ### The watcher's carry -/

theorem keepLast_isSuffix (keep : Nat) (text : List Char) : keepLast keep text <:+ text := by
  induction text with
  | nil => exact suffix_refl _
  | cons c rest inductionHypothesis =>
    rw [keepLast]
    split_ifs
    · exact suffix_refl _
    · exact inductionHypothesis.trans (suffix_cons _ _)

theorem utf8Len_le_of_isSuffix {first second : List Char} (ends : first <:+ second) :
    utf8Len first ≤ utf8Len second := by
  obtain ⟨front, rfl⟩ := ends
  rw [utf8Len, utf8Len, map_append, sum_append]
  exact Nat.le_add_left _ _

variable {keep : Nat} {text : List Char}

/-- What fits is kept. -/
theorem isSuffix_keepLast {last : List Char} (fits : utf8Len last ≤ keep) (ends : last <:+ text) :
    last <:+ keepLast keep text := by
  induction text with
  | nil => exact ends
  | cons c rest inductionHypothesis =>
    rw [keepLast]
    split_ifs with all
    · exact ends
    · rcases suffix_cons_iff.mp ends with rfl | later
      · exact absurd fits all
      · exact inductionHypothesis later

theorem keepLast_append (keep : Nat) (text more : List Char) :
    keepLast keep (keepLast keep text ++ more) = keepLast keep (text ++ more) := by
  induction text with
  | nil => rfl
  | cons c rest inductionHypothesis =>
    rw [keepLast]
    split_ifs with fits
    · rfl
    have long : ¬ utf8Len (c :: (rest ++ more)) ≤ keep := by
      simp only [utf8Len, map_cons, map_append, sum_cons, sum_append] at fits ⊢
      omega
    rw [inductionHypothesis, cons_append, keepLast, if_neg long]

/-- Characters of one byte in the old encoding take at most two in the new. -/
theorem utf8Len_le_of_latin (latin : ∀ c ∈ text, c.toNat < 0x100) :
    utf8Len text ≤ 2 * text.length := by
  induction text with
  | nil => exact Nat.le_refl _
  | cons c rest inductionHypothesis =>
    have others := inductionHypothesis fun letter member =>
      latin letter (mem_cons_of_mem _ member)
    have one : c.utf8Size ≤ 2 := by
      have below : c.val.toNat < 0x100 := latin c mem_cons_self
      rw [Char.utf8Size]
      split_ifs with first second
      · decide
      · decide
      · exact absurd (UInt32.le_iff_toNat_le.mpr (Nat.le_trans (Nat.le_of_lt below) (by decide)))
          second
      · exact absurd (UInt32.le_iff_toNat_le.mpr (Nat.le_trans (Nat.le_of_lt below) (by decide)))
          second
    rw [utf8Len] at others ⊢
    rw [map_cons, sum_cons, length_cons]
    omega

theorem length_le_utf8Len (text : List Char) : text.length ≤ utf8Len text := by
  induction text with
  | nil => exact Nat.le_refl _
  | cons c rest inductionHypothesis =>
    have positive := c.utf8Size_pos
    rw [utf8Len] at inductionHypothesis ⊢
    rw [map_cons, sum_cons, length_cons]
    omega

/-- Lower case of the characters of one byte. -/
def lowerLatin (c : Char) : Char :=
  if (0x41 ≤ c.toNat ∧ c.toNat ≤ 0x5a) ∨ (0xc0 ≤ c.toNat ∧ c.toNat ≤ 0xde ∧ c.toNat ≠ 0xd7) then
    Char.ofNat (c.toNat + 0x20)
  else c

/-- Text of characters of one byte is put in lower case one by one. -/
def LowersLatin : Prop :=
  ∀ text, (∀ c ∈ text, c.toNat < 0x100) → matching.toLowercase text = text.map lowerLatin

/-! ### The watcher and the cuts -/

theorem map_infix_append_iff {part carried seen more : List Char}
    (latin : ∀ c ∈ seen, c.toNat < 0x100) (room : 4 * utf8Len part ≤ keep)
    (carry : carried = keepLast keep seen) :
    part <:+: seen.map lowerLatin ∨ part <:+: (carried ++ more).map lowerLatin ↔
      part <:+: (seen ++ more).map lowerLatin := by
  have suffix : carried <:+ seen := carry ▸ keepLast_isSuffix keep seen
  constructor
  · rintro (before | window)
    · rw [map_append]
      exact infix_append_of_infix_left before
    · refine window.trans (IsSuffix.isInfix ?_)
      obtain ⟨front, rfl⟩ := suffix
      exact ⟨front.map lowerLatin, by rw [← map_append, append_assoc]⟩
  · intro within
    rw [map_append] at within
    rcases infix_append_iff.mp within with before | later | ⟨front, back, isPart, ends, begins⟩
    · exact .inl before
    · rw [map_append]
      exact .inr (infix_append_of_infix_right later)
    · -- What was seen of the part is short enough to have been kept.
      obtain ⟨last, isLast, rfl⟩ := suffix_map_iff.mp ends
      have short : utf8Len last ≤ keep := by
        have two := utf8Len_le_of_latin fun c member => latin c (isLast.subset member)
        have length := length_le_utf8Len part
        rw [isPart, length_append, length_map] at length
        rw [isPart] at room
        omega
      obtain ⟨rest, isRest⟩ := begins
      obtain ⟨skipped, isSkipped⟩ := isSuffix_keepLast short isLast
      refine .inr ⟨skipped.map lowerLatin, rest, ?_⟩
      rw [isPart, carry, ← isSkipped, map_append, map_append, ← isRest]
      simp only [append_assoc]

namespace OutputMatcher

variable {matching}

variable {matcher : OutputMatcher Regex} {text : List Char}

theorem feed_of_suffix (lowers : LowersLatin matching) (isText : matcher.pattern = .suffix text)
    (latin : ∀ c ∈ matcher.carry, c.toNat < 0x100) (output : List UInt8) :
    matcher.feed matching output =
      (decide (text <:+: (matcher.carry ++ stripAnsiLossy output).map lowerLatin),
        ⟨.suffix text, keepLast (max (utf8Len text * 4) tailCap)
          (matcher.carry ++ stripAnsiLossy output)⟩) := by
  have lowered := lowers (matcher.carry ++ stripAnsiLossy output) fun c member =>
    (mem_append.mp member).elim (latin c)
      fun inside => toNat_lt_of_isKept (isKept_of_mem_stripFrom inside)
  obtain ⟨pattern, carry⟩ := matcher
  cases isText
  rw [feed]
  simp only [lowered]

/-- From the end of what was seen, the pattern is found in the pieces that follow exactly where it
is in all of it. -/
theorem feedAny_iff (lowers : LowersLatin matching) (text : List Char)
    {seen : List Char} (latin : ∀ c ∈ seen, c.toNat < 0x100) (pieces : List (List UInt8)) :
    text <:+: seen.map lowerLatin ∨
        feedAny matching ⟨.suffix text, keepLast (max (utf8Len text * 4) tailCap) seen⟩ pieces =
          true ↔
      text <:+: (seen ++ pieces.flatMap stripAnsiLossy).map lowerLatin := by
  induction pieces generalizing seen with
  | nil => simp [feedAny]
  | cons piece pieces inductionHypothesis =>
    have carried : ∀ c ∈ keepLast (max (utf8Len text * 4) tailCap) seen, c.toNat < 0x100 :=
      fun c member => latin c ((keepLast_isSuffix _ _).subset member)
    have both : ∀ c ∈ seen ++ stripAnsiLossy piece, c.toNat < 0x100 := fun c member =>
      (mem_append.mp member).elim (latin c)
        fun inside => toNat_lt_of_isKept (isKept_of_mem_stripFrom inside)
    have room : 4 * utf8Len text ≤ max (utf8Len text * 4) tailCap := by
      rw [Nat.mul_comm]
      exact Nat.le_max_left _ _
    rw [feedAny, feed_of_suffix lowers rfl carried, Bool.or_eq_true, decide_eq_true_eq, ← or_assoc,
      map_infix_append_iff latin room rfl, keepLast_append, inductionHypothesis both,
      flatMap_cons, append_assoc]

theorem feedAny_eq (lowers : LowersLatin matching)
    (isNew : new matching (.suffix text) = some matcher) {pieces : List (List UInt8)}
    (some : pieces ≠ []) (outside : ∀ piece ∈ pieces.dropLast, EndsOutside piece) :
    matcher.feedAny matching pieces = (matcher.feed matching pieces.flatten).1 := by
  cases isNew
  have nothing : ∀ c ∈ ([] : List Char), c.toNat < 0x100 := fun c member => by cases member
  generalize matching.toLowercase (trimEnd text) = part
  have found := feedAny_iff lowers part nothing pieces
  rw [feed_of_suffix lowers rfl nothing, stripAnsiLossy_flatten outside, Bool.eq_iff_iff,
    decide_eq_true_eq]
  refine Iff.trans ?_ found
  constructor
  · exact .inr
  · rintro (blank | any)
    · -- A blank pattern is found in whatever comes first.
      have empty : part = [] := infix_nil.mp blank
      obtain ⟨piece, others, rfl⟩ := exists_cons_of_ne_nil some
      rw [feedAny, feed_of_suffix lowers rfl nothing, empty, Bool.or_eq_true]
      exact .inl (decide_eq_true (List.nil_infix))
    · exact any

end OutputMatcher

/-! ### Main result -/

/-- However output is cut outside of escape sequences, the runner keeps the same tail and the
watcher finds the same pattern. -/
theorem cut_outside (lowers : LowersLatin matching) {pieces : List (List UInt8)}
    (some : pieces ≠ []) (outside : ∀ piece ∈ pieces.dropLast, EndsOutside piece) :
    (∀ runner : ScriptRunner Regex,
        (pieces.foldl (fun runner piece => runner.feed piece) runner).tail =
          (runner.feed pieces.flatten).tail) ∧
      ∀ text matcher, OutputMatcher.new matching (.suffix text) = .some matcher →
        matcher.feedAny matching pieces = (matcher.feed matching pieces.flatten).1 :=
  ⟨fun runner => tail_foldl_feed_eq runner some outside,
    fun _ _ isNew => OutputMatcher.feedAny_eq lowers isNew some outside⟩

/-- Expressions without metacharacters, and lower case for characters of one byte. -/
def latin : Matching (List Char) := { literal with toLowercase := List.map lowerLatin }

/-- "User" in bold, cut behind its first letter and within the second one of "ñ". -/
theorem cut_outside_bold :
    (∀ runner : ScriptRunner (List Char),
        ([[0x1b, 0x5b, 0x31, 0x6d, 0x55], [0x73, 0xc3], [0xb1]].foldl
            (fun runner piece => runner.feed piece) runner).tail =
          (runner.feed [0x1b, 0x5b, 0x31, 0x6d, 0x55, 0x73, 0xc3, 0xb1]).tail) ∧
      ∀ text matcher, OutputMatcher.new latin (.suffix text) = some matcher →
        matcher.feedAny latin [[0x1b, 0x5b, 0x31, 0x6d, 0x55], [0x73, 0xc3], [0xb1]] =
          (matcher.feed latin [0x1b, 0x5b, 0x31, 0x6d, 0x55, 0x73, 0xc3, 0xb1]).1 :=
  cut_outside latin (fun _ _ => rfl) (by decide) (by decide)

/-- Cut behind its bracket, the rest of a sequence is in the tail and found as text. -/
theorem cut_inside :
    let pieces : List (List UInt8) := [[0x1b, 0x5b], [0x30, 0x6d]]
    let runner : ScriptRunner (List Char) := ⟨[⟨none, .nothing, 10000, false⟩], 0, [], 1, 1, false⟩
    let matcher : OutputMatcher (List Char) := ⟨.suffix "0m".toList, []⟩
    OutputMatcher.new latin (.suffix "0m".toList) = some matcher ∧
      ¬((pieces.foldl (fun runner piece => runner.feed piece) runner).tail =
        (runner.feed pieces.flatten).tail) ∧
      ¬(matcher.feedAny latin pieces = (matcher.feed latin pieces.flatten).1) := by
  refine ⟨rfl, ?_, ?_⟩ <;> decide

end Oryxis.Login

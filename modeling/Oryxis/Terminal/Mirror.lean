/-
This file is when a line the mirror vouches for is the line a line editor holds.

The editor it is compared with reads keys as the emacs mode does. A key it has no rule for
leaves the line unknown until it is submitted or aborted; a bracketed paste goes on to its
closing sequence and is inserted as it is. The mirror goes wrong where it takes two escape
bytes for one, moves the cursor for an application key inside a paste, gives a control
sequence up that is still going on, or finds a word's end at white space that is neither a
blank nor a tab.
-/

import Mathlib.Data.List.Infix
import Oryxis.Library.Machine
import Oryxis.Library.Utf8Stream
import Oryxis.Terminal.InputTracker

namespace Oryxis.Terminal.Input

open Library List

/-! ### The line editor -/

/-- A line, before the cursor and behind it. -/
structure Line where
  before : List Char
  after : List Char

/-- What a key with a rule does. -/
inductive Key where
  | backspace
  | delete
  | toStart
  | toEnd
  | left
  | right
  | killToStart
  | killToEnd
  | killWord
  | transpose
  | redraw

/-- What parts words on a line. -/
def isBlank (c : Char) : Bool := c = ' ' || c = '\t'

/-- What stands before the last word and the blanks behind it. -/
def wordKept (before : List Char) : List Char :=
  (before.rdropWhile isBlank).rdropWhile fun c => !isBlank c

def swapLast (before : List Char) : List Char :=
  match before.reverse with
  | second :: first :: others => (first :: second :: others).reverse
  | _ => before

namespace Line

def text (line : Line) : List Char := line.before ++ line.after

def insertAll (line : Line) (text : List Char) : Line := ⟨line.before ++ text, line.after⟩

def edit (line : Line) : Key → Line
  | .backspace => ⟨line.before.dropLast, line.after⟩
  | .delete => ⟨line.before, line.after.tail⟩
  | .toStart => ⟨[], line.text⟩
  | .toEnd => ⟨line.text, []⟩
  | .left =>
    match line.before.getLast? with
    | none => line
    | some c => ⟨line.before.dropLast, c :: line.after⟩
  | .right =>
    match line.after with
    | [] => line
    | c :: after => ⟨line.before ++ [c], after⟩
  | .killToStart => ⟨[], line.after⟩
  | .killToEnd => ⟨line.before, []⟩
  | .killWord => ⟨wordKept line.before, line.after⟩
  | .transpose =>
    match line.after, line.before.getLast? with
    | [], _ => ⟨swapLast line.before, []⟩
    | next :: after, some c => ⟨line.before.dropLast ++ [next, c], after⟩
    | _ :: _, none => line
  | .redraw => line

end Line

/-- The control bytes that have a rule, other than Enter and Ctrl+C. -/
def keyOf (byte : UInt8) : Option Key :=
  if byte = 0x7f ∨ byte = 0x08 then some .backspace
  else if byte = 0x04 then some .delete
  else if byte = 0x01 then some .toStart
  else if byte = 0x05 then some .toEnd
  else if byte = 0x02 then some .left
  else if byte = 0x06 then some .right
  else if byte = 0x15 then some .killToStart
  else if byte = 0x0b then some .killToEnd
  else if byte = 0x17 then some .killWord
  else if byte = 0x14 then some .transpose
  else if byte = 0x0c then some .redraw
  else none

def csiKeyOf (params : List UInt8) (final : UInt8) : Option Key :=
  if params = [] then
    if final = 0x44 then some .left
    else if final = 0x43 then some .right
    else if final = 0x48 then some .toStart
    else if final = 0x46 then some .toEnd
    else none
  else if final = 0x7e then
    if params = [0x31] ∨ params = [0x37] then some .toStart
    else if params = [0x34] ∨ params = [0x38] then some .toEnd
    else if params = [0x33] then some .delete
    else none
  else none

def ss3KeyOf (byte : UInt8) : Option Key :=
  if byte = 0x44 then some .left
  else if byte = 0x43 then some .right
  else if byte = 0x48 then some .toStart
  else if byte = 0x46 then some .toEnd
  else none

/-- What closes a bracketed paste. -/
def pasteEnd : List UInt8 := [0x1b, 0x5b, 0x32, 0x30, 0x31, 0x7e]

/-- What a paste inserts: its text, with its line breaks. -/
def pasted (raw : List UInt8) : List Char :=
  (decodeAll raw).map fun c => if c = '\r' then '\n' else c

inductive Mode where
  /-- Between keys, with the bytes of an unfinished letter. -/
  | ground (pending : List UInt8)
  | esc
  | csi (params : List UInt8)
  | ss3
  /-- In a paste, with what came of it. -/
  | paste (raw : List UInt8)

/-- A line editor; the line is unknown behind a key without a rule. -/
structure Editor where
  mode : Mode
  line : Option Line

namespace Editor

def fresh : Editor := ⟨.ground [], some ⟨[], []⟩⟩

def press (editor : Editor) (key : Option Key) : Editor :=
  ⟨.ground [], key.bind fun key => editor.line.map (·.edit key)⟩

/-- One byte, with the line if it is submitted. -/
def step (editor : Editor) (byte : UInt8) : Editor × Option (Option (List Char)) :=
  match editor.mode with
  | .ground pending =>
    if byte = carriageReturn ∨ byte = lineFeed then (fresh, some (editor.line.map Line.text))
    else if byte = 0x03 then (fresh, none)
    else if byte = Input.esc then (⟨.esc, editor.line⟩, none)
    else if byte ≤ 0x1f ∨ byte = 0x7f then (editor.press (keyOf byte), none)
    else
      let decoded := decodeByte pending byte
      (⟨.ground decoded.1, editor.line.map (·.insertAll decoded.2)⟩, none)
  | .esc =>
    if byte = 0x5b then (⟨.csi [], editor.line⟩, none)
    else if byte = 0x4f then (⟨.ss3, editor.line⟩, none)
    else (editor.press none, none)
  | .csi params =>
    if 0x20 ≤ byte ∧ byte ≤ 0x3f then (⟨.csi (params ++ [byte]), editor.line⟩, none)
    else if byte = 0x7e ∧ params = [0x32, 0x30, 0x30] then (⟨.paste [], editor.line⟩, none)
    else (editor.press (csiKeyOf params byte), none)
  | .ss3 => (editor.press (ss3KeyOf byte), none)
  | .paste raw =>
    if pasteEnd <:+ raw ++ [byte] then
      (⟨.ground [], editor.line.map
        (·.insertAll (pasted ((raw ++ [byte]).take (raw.length + 1 - pasteEnd.length))))⟩, none)
    else (⟨.paste (raw ++ [byte]), editor.line⟩, none)

end Editor

/-! ### Runs -/

/-- The mirror and an editor that get the same bytes, with the lines either has submitted and the
number of bytes up to there. -/
structure Typing where
  tracker : InputTracker
  editor : Editor
  fed : Nat
  submitted : List (Nat × SubmittedLine)
  entered : List (Nat × Option (List Char))

namespace Typing

def start : Typing := ⟨.new, .fresh, 0, [], []⟩

def step (typing : Typing) (byte : UInt8) : Typing :=
  let tracked := typing.tracker.feedByte byte
  let edited := typing.editor.step byte
  ⟨tracked.1, edited.1, typing.fed + 1,
    typing.submitted ++ tracked.2.map (typing.fed + 1, ·),
    typing.entered ++ (edited.2.map (typing.fed + 1, ·)).toList⟩

def machine : Machine Typing UInt8 := ⟨fun typing byte => some (typing.step byte)⟩

def stepAll (typing : Typing) (bytes : List UInt8) : Typing := bytes.foldl step typing

end Typing

/-- The mirror on a stream in chunks. -/
def InputTracker.feedAll (tracker : InputTracker) :
    List (List UInt8) → InputTracker × List SubmittedLine
  | [] => (tracker, [])
  | chunk :: chunks =>
    let fed := tracker.feed chunk
    let rest := fed.1.feedAll chunks
    (rest.1, fed.2 ++ rest.2)

/-- What Ctrl+W takes away. -/
def rubbedOut (before : List Char) : List Char := before.drop (wordKept before).length

/-- A control sequence goes on that the mirror has given up. -/
def Editor.InLongSequence (editor : Editor) : Prop :=
  match editor.mode with
  | .csi params => 16 < params.length
  | _ => False

instance (editor : Editor) : Decidable editor.InLongSequence := by
  unfold Editor.InLongSequence
  cases editor.mode <;> infer_instance

/-- Where the mirror and the editor part: an escape byte behind another one; an application key in
a paste; Enter, Ctrl+C or an escape byte in a long control sequence; Ctrl+W on white space that is
neither a blank nor a tab. -/
def Typing.Parts (typing : Typing) (byte : UInt8) : Prop :=
  typing.tracker.scan = .esc ∧ byte = esc ∧
      (typing.tracker.inPaste = false ∨ typing.tracker.tainted = false) ∨
    typing.tracker.scan = .ss3 ∧ typing.tracker.inPaste = true ∧
      typing.tracker.tainted = false ∧ (ss3KeyOf byte).isSome ∨
    typing.editor.InLongSequence ∧ typing.tracker.inPaste = false ∧
      (byte = carriageReturn ∨ byte = lineFeed ∨ byte = 0x03 ∨ byte = esc) ∨
    typing.tracker.scan = .ground ∧ typing.tracker.inPaste = false ∧
      typing.tracker.tainted = false ∧ byte = 0x17 ∧
      ∃ c ∈ rubbedOut (typing.tracker.chars.take typing.tracker.cursor),
        isWhitespace c ≠ isBlank c
  deriving Decidable

/-! ### Keys -/

/-- The mirror has the line and the cursor where the editor has it. -/
structure Mirrors (tracker : InputTracker) (line : Line) : Prop where
  chars : tracker.chars = line.before ++ line.after
  cursor : tracker.cursor = line.before.length

variable {tracker : InputTracker} {line : Line}

theorem Mirrors.take (mirrors : Mirrors tracker line) :
    tracker.chars.take tracker.cursor = line.before := by
  rw [mirrors.chars, mirrors.cursor, take_left]

theorem Mirrors.drop (mirrors : Mirrors tracker line) :
    tracker.chars.drop tracker.cursor = line.after := by
  rw [mirrors.chars, mirrors.cursor, drop_left]

theorem Mirrors.length (mirrors : Mirrors tracker line) :
    tracker.chars.length = tracker.cursor + line.after.length := by
  rw [mirrors.chars, mirrors.cursor, length_append]

theorem Mirrors.moveTo {moved : Line} {cursor : Nat} (mirrors : Mirrors tracker line)
    (same : moved.before ++ moved.after = line.before ++ line.after)
    (position : cursor = moved.before.length) : Mirrors (tracker.moveTo cursor) moved :=
  ⟨mirrors.chars.trans same.symm, position⟩

theorem mirrors_backspace (mirrors : Mirrors tracker line) :
    Mirrors tracker.backspace (line.edit .backspace) := by
  obtain ⟨before, after⟩ := line
  have chars := mirrors.chars
  have cursor := mirrors.cursor
  rw [InputTracker.backspace, Line.edit]
  dsimp only at chars cursor ⊢
  rcases eq_nil_or_concat' before with rfl | ⟨front, last, rfl⟩
  · rw [if_neg (by rw [cursor]; exact Nat.lt_irrefl 0)]
    exact mirrors
  · rw [length_append, length_singleton] at cursor
    rw [if_pos (by omega), chars, cursor, Nat.add_sub_cancel, dropLast_concat]
    refine ⟨?_, rfl⟩
    dsimp only
    rw [append_assoc, eraseIdx_append_of_length_le (Nat.le_refl _), Nat.sub_self]
    rfl

theorem mirrors_delete (mirrors : Mirrors tracker line) :
    Mirrors tracker.delete (line.edit .delete) := by
  obtain ⟨before, after⟩ := line
  have chars := mirrors.chars
  have length := mirrors.length
  rw [InputTracker.delete, Line.edit]
  dsimp only at chars length ⊢
  cases after with
  | nil =>
    rw [if_neg (by rw [length]; exact Nat.lt_irrefl _)]
    exact mirrors
  | cons next after =>
    rw [if_pos (by rw [length, length_cons]; omega), chars, mirrors.cursor]
    refine ⟨?_, rfl⟩
    dsimp only
    rw [eraseIdx_append_of_length_le (Nat.le_refl _), Nat.sub_self]
    rfl

theorem mirrors_toStart (mirrors : Mirrors tracker line) :
    Mirrors (tracker.moveTo 0) (line.edit .toStart) :=
  mirrors.moveTo rfl rfl

theorem mirrors_toEnd (mirrors : Mirrors tracker line) :
    Mirrors (tracker.moveTo tracker.chars.length) (line.edit .toEnd) :=
  mirrors.moveTo (append_nil _) (congrArg List.length mirrors.chars)

theorem mirrors_left (mirrors : Mirrors tracker line) :
    Mirrors tracker.left (line.edit .left) := by
  obtain ⟨before, after⟩ := line
  have cursor := mirrors.cursor
  rw [InputTracker.left, Line.edit]
  dsimp only at cursor ⊢
  rcases eq_nil_or_concat' before with rfl | ⟨front, last, rfl⟩
  · exact mirrors.moveTo rfl (by rw [cursor]; rfl)
  · rw [length_append, length_singleton] at cursor
    rw [getLast?_concat, dropLast_concat]
    refine mirrors.moveTo ?_ ?_
    · dsimp only
      rw [append_assoc]
      rfl
    · rw [cursor, Nat.add_sub_cancel]

theorem mirrors_right (mirrors : Mirrors tracker line) :
    Mirrors tracker.right (line.edit .right) := by
  obtain ⟨before, after⟩ := line
  have cursor := mirrors.cursor
  have length := mirrors.length
  rw [InputTracker.right, Line.edit]
  dsimp only at cursor length ⊢
  cases after with
  | nil =>
    rw [length_nil, Nat.add_zero] at length
    exact mirrors.moveTo rfl (by rw [length, Nat.min_eq_right (Nat.le_succ _), cursor])
  | cons next after =>
    rw [length_cons] at length
    refine mirrors.moveTo ?_ ?_
    · dsimp only
      rw [append_assoc]
      rfl
    · rw [length, Nat.min_eq_left (by omega), length_append, cursor, length_singleton]

theorem mirrors_killToStart (mirrors : Mirrors tracker line) :
    Mirrors tracker.killToStart (line.edit .killToStart) :=
  ⟨mirrors.drop, rfl⟩

theorem mirrors_killToEnd (mirrors : Mirrors tracker line) :
    Mirrors tracker.killToEnd (line.edit .killToEnd) :=
  ⟨mirrors.take.trans (append_nil _).symm, mirrors.cursor⟩

variable {space blank : Char → Bool} {before : List Char}

/-- A word's letters are dropped by either of two tests that agree on them. -/
theorem rdropWhile_letters (wider : ∀ c, blank c = true → space c = true)
    (same : ∀ c ∈ before.drop (before.rdropWhile fun c => !blank c).length, space c = blank c) :
    (before.rdropWhile fun c => !space c) = before.rdropWhile fun c => !blank c := by
  induction before using List.reverseRecOn with
  | nil => rfl
  | append_singleton front last inductionHypothesis =>
    rw [rdropWhile_concat, rdropWhile_concat]
    rw [rdropWhile_concat] at same
    cases isBlank : blank last with
    | true => rw [wider last isBlank, if_neg (by decide), if_neg (by decide)]
    | false =>
      rw [isBlank, if_pos (by decide), drop_append_of_le_length
        (List.rdropWhile_prefix _ _).length_le] at same
      rw [same last (mem_append_right _ mem_cons_self), isBlank, if_pos (by decide),
        if_pos (by decide)]
      exact inductionHypothesis fun c member => same c (mem_append_left _ member)

/-- Two tests that agree on what one of them drops drop the same word. -/
theorem rdropWhile_word (wider : ∀ c, blank c = true → space c = true)
    (same : ∀ c ∈ before.drop ((before.rdropWhile blank).rdropWhile fun c => !blank c).length,
      space c = blank c) :
    ((before.rdropWhile space).rdropWhile fun c => !space c) =
      (before.rdropWhile blank).rdropWhile fun c => !blank c := by
  induction before using List.reverseRecOn with
  | nil => rfl
  | append_singleton front last inductionHypothesis =>
    rw [rdropWhile_concat, rdropWhile_concat]
    rw [rdropWhile_concat] at same
    cases isBlank : blank last with
    | true =>
      rw [isBlank, if_pos rfl] at same
      have shorter :=
        (List.rdropWhile_prefix (fun c => !blank c) (front.rdropWhile blank)).length_le.trans
          (List.rdropWhile_prefix blank front).length_le
      rw [drop_append_of_le_length shorter] at same
      rw [wider last isBlank, if_pos rfl, if_pos rfl]
      exact inductionHypothesis fun c member => same c (mem_append_left _ member)
    | false =>
      rw [isBlank, if_neg (by decide)] at same
      have dropped : last ∈ (front ++ [last]).drop
          ((front ++ [last]).rdropWhile fun c => !blank c).length := by
        rw [rdropWhile_concat_pos _ _ _ (by rw [isBlank]; rfl),
          drop_append_of_le_length (List.rdropWhile_prefix _ _).length_le]
        exact mem_append_right _ mem_cons_self
      rw [same last dropped, isBlank, if_neg (by decide), if_neg (by decide)]
      exact rdropWhile_letters wider same

theorem isWhitespace_of_isBlank (c : Char) (blank : isBlank c = true) : isWhitespace c = true := by
  rw [isBlank, Bool.or_eq_true, decide_eq_true_eq, decide_eq_true_eq] at blank
  rcases blank with rfl | rfl <;> decide

theorem mirrors_killWord (mirrors : Mirrors tracker line)
    (same : ∀ c ∈ rubbedOut (tracker.chars.take tracker.cursor), isWhitespace c = isBlank c) :
    Mirrors tracker.killWord (line.edit .killWord) := by
  rw [mirrors.take] at same
  have start : tracker.wordStart = (wordKept line.before).length := by
    rw [InputTracker.wordStart, mirrors.take, wordKept]
    exact congrArg List.length (rdropWhile_word isWhitespace_of_isBlank same)
  have kept : wordKept line.before <+: line.before :=
    (List.rdropWhile_prefix _ _).trans (List.rdropWhile_prefix _ _)
  refine ⟨?_, start⟩
  show tracker.chars.take tracker.wordStart ++ tracker.chars.drop tracker.cursor =
    wordKept line.before ++ line.after
  rw [start, mirrors.drop, mirrors.chars, take_append_of_le_length kept.length_le,
    ← prefix_iff_eq_take.mp kept]

theorem swap_append (first : List Char) (a b : Char) (second : List Char) :
    InputTracker.swap (first ++ a :: b :: second) first.length = first ++ b :: a :: second := by
  have behind : (first ++ a :: b :: second).drop (first.length + 2) = second := by
    rw [drop_append, drop_of_length_le (Nat.le_add_right _ _), nil_append,
      Nat.add_sub_cancel_left]
    rfl
  rw [InputTracker.swap, take_left, drop_left, behind, append_assoc]
  rfl

theorem mirrors_transpose (mirrors : Mirrors tracker line) :
    Mirrors tracker.transpose (line.edit .transpose) := by
  obtain ⟨before, after⟩ := line
  have chars := mirrors.chars
  have cursor := mirrors.cursor
  have length := mirrors.length
  rw [InputTracker.transpose, Line.edit]
  dsimp only at chars cursor length ⊢
  cases after with
  | nil =>
    rw [length_nil, Nat.add_zero] at length
    rw [append_nil] at chars
    rcases eq_nil_or_concat' before with rfl | ⟨front, last, rfl⟩
    · rw [length_nil] at cursor
      rw [if_neg (by omega), if_neg (by omega)]
      exact mirrors
    rcases eq_nil_or_concat' front with rfl | ⟨others, first, rfl⟩
    · rw [nil_append, length_singleton] at cursor
      rw [if_neg (by omega), if_neg (by omega)]
      exact mirrors
    · rw [append_assoc] at chars
      have size : tracker.chars.length = others.length + 2 := by
        rw [chars, length_append]
        rfl
      have swapped : swapLast (others ++ [first] ++ [last]) = others ++ [last, first] := by
        rw [swapLast]
        simp
      rw [if_pos ⟨length.symm, by omega⟩, size, Nat.add_sub_cancel, chars]
      dsimp only
      rw [swapped]
      refine ⟨?_, ?_⟩
      · dsimp only
        rw [append_nil]
        exact swap_append others first last []
      · dsimp only
        rw [← length, size, length_append]
        rfl
  | cons next after =>
    rw [length_cons] at length
    rw [if_neg (by omega)]
    rcases eq_nil_or_concat' before with rfl | ⟨front, last, rfl⟩
    · rw [if_neg (by rw [cursor]; exact fun both => Nat.lt_irrefl 0 both.1)]
      exact mirrors
    · rw [length_append, length_singleton] at cursor
      rw [if_pos (by omega), getLast?_concat, dropLast_concat, cursor,
        Nat.add_sub_cancel, chars, append_assoc]
      refine ⟨?_, ?_⟩
      · dsimp only
        rw [singleton_append, swap_append, append_assoc]
        rfl
      · dsimp only
        rw [length_append]
        rfl

/-- Only the line, its cursor and the taint are changed. -/
structure Keeps (tracker after : InputTracker) : Prop where
  scan : after.scan = tracker.scan
  params : after.params = tracker.params
  inPaste : after.inPaste = tracker.inPaste
  pendingUtf8 : after.pendingUtf8 = tracker.pendingUtf8

/-- The mirror follows a key, or is tainted. -/
structure Edits (tracker after : InputTracker) (key : Option Key) : Prop where
  keeps : Keeps tracker after
  follows : after.tainted = false → tracker.tainted = false ∧ ∃ pressed, key = some pressed ∧
    ∀ line, Mirrors tracker line → Mirrors after (line.edit pressed)

variable {after : InputTracker}

theorem edits_of_mirrors {pressed : Key} (keeps : Keeps tracker after)
    (tainted : after.tainted = tracker.tainted)
    (mirrors : ∀ line, Mirrors tracker line → Mirrors after (line.edit pressed)) :
    Edits tracker after (some pressed) :=
  ⟨keeps, fun clean => ⟨tainted ▸ clean, pressed, rfl, mirrors⟩⟩

theorem edits_taint (tracker : InputTracker) (key : Option Key) :
    Edits tracker tracker.taint key :=
  ⟨⟨rfl, rfl, rfl, rfl⟩, fun clean => by cases clean⟩

theorem edits_backspace (tracker : InputTracker) :
    Edits tracker tracker.backspace (some .backspace) := by
  refine edits_of_mirrors ?_ ?_ fun line => mirrors_backspace
  all_goals rw [InputTracker.backspace]; split_ifs
  · exact ⟨rfl, rfl, rfl, rfl⟩
  · exact ⟨rfl, rfl, rfl, rfl⟩
  · rfl
  · rfl

theorem edits_delete (tracker : InputTracker) : Edits tracker tracker.delete (some .delete) := by
  refine edits_of_mirrors ?_ ?_ fun line => mirrors_delete
  all_goals rw [InputTracker.delete]; split_ifs
  · exact ⟨rfl, rfl, rfl, rfl⟩
  · exact ⟨rfl, rfl, rfl, rfl⟩
  · rfl
  · rfl

theorem edits_transpose (tracker : InputTracker) :
    Edits tracker tracker.transpose (some .transpose) := by
  refine edits_of_mirrors ?_ ?_ fun line => mirrors_transpose
  all_goals rw [InputTracker.transpose]; split_ifs
  · exact ⟨rfl, rfl, rfl, rfl⟩
  · exact ⟨rfl, rfl, rfl, rfl⟩
  · exact ⟨rfl, rfl, rfl, rfl⟩
  · rfl
  · rfl
  · rfl

theorem edits_toStart (tracker : InputTracker) : Edits tracker (tracker.moveTo 0) (some .toStart) :=
  edits_of_mirrors ⟨rfl, rfl, rfl, rfl⟩ rfl fun _ => mirrors_toStart

theorem edits_toEnd (tracker : InputTracker) :
    Edits tracker (tracker.moveTo tracker.chars.length) (some .toEnd) :=
  edits_of_mirrors ⟨rfl, rfl, rfl, rfl⟩ rfl fun _ => mirrors_toEnd

theorem edits_left (tracker : InputTracker) : Edits tracker tracker.left (some .left) :=
  edits_of_mirrors ⟨rfl, rfl, rfl, rfl⟩ rfl fun _ => mirrors_left

theorem edits_right (tracker : InputTracker) : Edits tracker tracker.right (some .right) :=
  edits_of_mirrors ⟨rfl, rfl, rfl, rfl⟩ rfl fun _ => mirrors_right

/-- A control byte other than Enter, Ctrl+C and the escape byte. -/
theorem edits_key {byte : UInt8} (control : byte ≤ 0x1f ∨ byte = 0x7f)
    (notEnter : ¬ (byte = carriageReturn ∨ byte = lineFeed)) (notAbort : byte ≠ 0x03)
    (notEsc : byte ≠ esc) (words : byte = 0x17 → tracker.tainted = false →
      ∀ c ∈ rubbedOut (tracker.chars.take tracker.cursor), isWhitespace c = isBlank c) :
    (tracker.key byte).2 = [] ∧ Edits tracker (tracker.key byte).1 (keyOf byte) := by
  rw [InputTracker.key, if_neg notEnter, if_neg notEsc, keyOf]
  by_cases isBackspace : byte = 0x7f ∨ byte = 0x08
  · rw [if_pos isBackspace, if_pos isBackspace]
    exact ⟨rfl, edits_backspace tracker⟩
  rw [if_neg isBackspace, if_neg isBackspace]
  by_cases isTab : byte = 0x09
  · rw [if_pos isTab]
    exact ⟨rfl, edits_taint tracker _⟩
  rw [if_neg isTab]
  by_cases isStart : byte = 0x01
  · subst isStart
    exact ⟨rfl, edits_toStart tracker⟩
  by_cases isEnd : byte = 0x05
  · subst isEnd
    exact ⟨rfl, edits_toEnd tracker⟩
  by_cases isLeft : byte = 0x02
  · subst isLeft
    exact ⟨rfl, edits_left tracker⟩
  by_cases isRight : byte = 0x06
  · subst isRight
    exact ⟨rfl, edits_right tracker⟩
  by_cases isDelete : byte = 0x04
  · subst isDelete
    exact ⟨rfl, edits_delete tracker⟩
  by_cases isKillToStart : byte = 0x15
  · subst isKillToStart
    exact ⟨rfl, edits_of_mirrors ⟨rfl, rfl, rfl, rfl⟩ rfl fun _ => mirrors_killToStart⟩
  by_cases isKillToEnd : byte = 0x0b
  · subst isKillToEnd
    exact ⟨rfl, edits_of_mirrors ⟨rfl, rfl, rfl, rfl⟩ rfl fun _ => mirrors_killToEnd⟩
  by_cases isKillWord : byte = 0x17
  · subst isKillWord
    refine ⟨rfl, ⟨rfl, rfl, rfl, rfl⟩, fun clean => ⟨clean, .killWord, rfl, fun line mirrors => ?_⟩⟩
    exact mirrors_killWord mirrors (words rfl clean)
  by_cases isTranspose : byte = 0x14
  · subst isTranspose
    exact ⟨rfl, edits_transpose tracker⟩
  by_cases isRedraw : byte = 0x0c
  · subst isRedraw
    exact ⟨rfl, edits_of_mirrors ⟨rfl, rfl, rfl, rfl⟩ rfl fun _ => id⟩
  have low : byte ≤ 0x1f := control.resolve_right fun isDel => isBackspace (.inl isDel)
  rw [if_neg isStart, if_neg isEnd, if_neg isLeft, if_neg isRight, if_neg notAbort,
    if_neg isDelete, if_neg isKillToStart, if_neg isKillToEnd, if_neg isKillWord,
    if_neg isTranspose, if_neg isRedraw, if_pos low]
  exact ⟨rfl, edits_taint tracker _⟩

theorem edits_ss3 (tracker : InputTracker) (byte : UInt8) :
    Edits (tracker.enter .ground) (tracker.ss3 byte) (ss3KeyOf byte) := by
  rw [InputTracker.ss3, ss3KeyOf]
  split_ifs
  · exact edits_left _
  · exact edits_right _
  · exact edits_toStart _
  · exact edits_toEnd _
  · exact edits_taint _ _

/-- A control sequence that does not open a paste. -/
theorem edits_csiKey {params : List UInt8} {final : UInt8}
    (notPaste : ¬ (final = 0x7e ∧ params = [0x32, 0x30, 0x30])) :
    Edits tracker (tracker.csiKey params final) (csiKeyOf params final) := by
  rw [InputTracker.csiKey]
  split_ifs with isLeft isRight isStart isEnd isDelete
  · obtain ⟨rfl, rfl⟩ := isLeft
    exact edits_left tracker
  · obtain ⟨rfl, rfl⟩ := isRight
    exact edits_right tracker
  · rcases isStart with ⟨rfl, rfl⟩ | ⟨rfl, rfl⟩ | ⟨rfl, rfl⟩
    all_goals exact edits_toStart tracker
  · rcases isEnd with ⟨rfl, rfl⟩ | ⟨rfl, rfl⟩ | ⟨rfl, rfl⟩
    all_goals exact edits_toEnd tracker
  · obtain ⟨rfl, rfl⟩ := isDelete
    exact edits_delete tracker
  · exact edits_taint tracker _

/-! ### Text -/

theorem Keeps.refl (tracker : InputTracker) : Keeps tracker tracker := ⟨rfl, rfl, rfl, rfl⟩

theorem Keeps.trans {middle : InputTracker} (first : Keeps tracker middle)
    (second : Keeps middle after) : Keeps tracker after :=
  ⟨second.scan.trans first.scan, second.params.trans first.params,
    second.inPaste.trans first.inPaste, second.pendingUtf8.trans first.pendingUtf8⟩

/-- The mirror follows a text, or is tainted. -/
def Types (tracker after : InputTracker) (text : List Char) : Prop :=
  after.tainted = false → tracker.tainted = false ∧
    ∀ line, Mirrors tracker line → Mirrors after (line.insertAll text)

theorem types_insert (tracker : InputTracker) (c : Char) :
    Keeps tracker (tracker.insert c) ∧ Types tracker (tracker.insert c) [c] := by
  rw [InputTracker.insert]
  split_ifs with full
  · exact ⟨⟨rfl, rfl, rfl, rfl⟩, fun clean => by cases clean⟩
  · refine ⟨⟨rfl, rfl, rfl, rfl⟩, fun clean => ⟨clean, fun line mirrors => ⟨?_, ?_⟩⟩⟩
    · rw [mirrors.take, mirrors.drop]
      show line.before ++ c :: line.after = line.before ++ [c] ++ line.after
      rw [append_assoc]
      rfl
    · show tracker.cursor + 1 = (line.before ++ [c]).length
      rw [length_append, mirrors.cursor]
      rfl

theorem types_insertAll (tracker : InputTracker) (text : List Char) :
    Keeps tracker (tracker.insertAll text) ∧ Types tracker (tracker.insertAll text) text := by
  induction text generalizing tracker with
  | nil =>
    refine ⟨Keeps.refl tracker, fun clean => ⟨clean, fun line mirrors => ?_⟩⟩
    rw [Line.insertAll, append_nil]
    exact mirrors
  | cons c text inductionHypothesis =>
    obtain ⟨keeps, types⟩ := types_insert tracker c
    obtain ⟨keepsAll, typesAll⟩ := inductionHypothesis (tracker.insert c)
    refine ⟨keeps.trans keepsAll, fun clean => ?_⟩
    obtain ⟨cleanFirst, followsAll⟩ := typesAll clean
    obtain ⟨cleanBefore, follows⟩ := types cleanFirst
    refine ⟨cleanBefore, fun line mirrors => ?_⟩
    have both := followsAll _ (follows line mirrors)
    rw [Line.insertAll, Line.insertAll, append_assoc] at both
    exact both

/-- What is kept and inserted of the bytes of a letter is what they settle to. -/
theorem tryFlushUtf8_spec {first : UInt8} {others : List UInt8}
    (pending : tracker.pendingUtf8 = first :: others) (long : 0x80 ≤ first.toNat) :
    let after := tracker.tryFlushUtf8
    after.pendingUtf8 = (settle (first :: others)).1 ∧ after.scan = tracker.scan ∧
      after.inPaste = tracker.inPaste ∧ after.params = tracker.params ∧
      Types tracker after (settle (first :: others)).2 := by
  have same : InputTracker.need first = announced first := by
    have notAscii : ¬ first < 0x80 := fun ascii =>
      absurd (UInt8.lt_iff_toNat_lt.mp ascii) (Nat.not_lt.mpr long)
    rw [InputTracker.need, announced, if_neg notAscii]
  rw [InputTracker.tryFlushUtf8, pending, head?_cons, Option.bind_some, same, settle,
    head?_cons, Option.bind_some]
  have nothing : ∀ after : InputTracker, after.chars = tracker.chars →
      after.cursor = tracker.cursor → after.tainted = tracker.tainted →
      Types tracker after [] := by
    intro after chars cursor tainted
    refine fun clean => ⟨tainted ▸ clean, fun line mirrors => ?_⟩
    rw [Line.insertAll, append_nil]
    exact ⟨chars.trans mirrors.chars, cursor.trans mirrors.cursor⟩
  cases announced first with
  | none => exact ⟨rfl, rfl, rfl, rfl, nothing _ rfl rfl rfl⟩
  | some size =>
    dsimp only
    split_ifs with unfinished
    · exact ⟨pending, rfl, rfl, rfl, nothing _ rfl rfl rfl⟩
    · obtain ⟨keeps, types⟩ :=
        types_insertAll tracker ((fromUtf8 (first :: others)).getD [])
      refine ⟨rfl, keeps.scan, keeps.inPaste, keeps.params, fun clean => ?_⟩
      obtain ⟨cleanBefore, follows⟩ := types clean
      exact ⟨cleanBefore, fun line mirrors =>
        ⟨(follows line mirrors).chars, (follows line mirrors).cursor⟩⟩

end Oryxis.Terminal.Input

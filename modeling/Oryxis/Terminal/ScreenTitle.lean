/-
This file is the filter that takes GNU screen's window titles out of terminal output, and
when it loses none of the output.

A title is `ESC k`, its text and a terminator. What the filter does not pass on at once it
holds back until it knows whether it is a title. Putting the titles back where they were
taken out and what is held back at the end gives the output again, unless an escape byte
came while the filter waited for the second byte of a terminator: that byte is in nothing
it gives out.
-/

import Oryxis.Library.Utf8

namespace Oryxis.Terminal.ScreenTitle

open Library List

/-! ### The filter -/

abbrev esc : UInt8 := 0x1b
abbrev bel : UInt8 := 0x07
abbrev letterK : UInt8 := 0x6b
abbrev backslash : UInt8 := 0x5c
abbrev lineFeed : UInt8 := 0x0a
abbrev carriageReturn : UInt8 := 0x0d

/-- The longest title that is accepted. -/
def maxTitle : Nat := 1024

inductive Scan where
  | normal
  /-- After an escape byte: the next byte decides whether a title begins. -/
  | esc
  | body
  /-- After an escape byte in a title. -/
  | bodyEsc
  deriving DecidableEq, Repr

structure ScreenTitleFilter where
  scan : Scan
  body : List UInt8

inductive Terminator where
  | bell
  | stringTerminator

def Terminator.bytes : Terminator → List UInt8
  | .bell => [bel]
  | .stringTerminator => [esc, backslash]

/-- What the filter gives out, in order: bytes it passes on and titles it takes out. -/
inductive Piece where
  | passed (bytes : List UInt8)
  | title (body : List UInt8) (terminator : Terminator)

/-- A run that turns out to be no title. -/
def replay (body : List UInt8) : List UInt8 := [esc, letterK] ++ body

namespace ScreenTitleFilter

def default : ScreenTitleFilter := ⟨.normal, []⟩

/-- One byte, with what is pushed to the output or to the titles for it. -/
def step (filter : ScreenTitleFilter) (byte : UInt8) : ScreenTitleFilter × List Piece :=
  match filter.scan with
  | .normal =>
    if byte = esc then (⟨.esc, filter.body⟩, []) else (filter, [.passed [byte]])
  | .esc =>
    if byte = letterK then (⟨.body, []⟩, [])
    -- The second escape byte may begin a title in its turn.
    else if byte = esc then (filter, [.passed [esc]])
    else (⟨.normal, filter.body⟩, [.passed [esc, byte]])
  | .body =>
    if byte = bel then (⟨.normal, []⟩, [.title filter.body .bell])
    else if byte = esc then (⟨.bodyEsc, filter.body⟩, [])
    else if byte = lineFeed ∨ byte = carriageReturn ∨ byte = 0 then
      (⟨.normal, []⟩, [.passed (replay filter.body ++ [byte])])
    else if maxTitle ≤ filter.body.length then
      (⟨.normal, []⟩, [.passed (replay filter.body ++ [byte])])
    else (⟨.body, filter.body ++ [byte]⟩, [])
  | .bodyEsc =>
    if byte = backslash then (⟨.normal, []⟩, [.title filter.body .stringTerminator])
    else if byte = esc then (filter, [])
    else (⟨.normal, []⟩, [.passed (replay filter.body ++ [esc, byte])])

def run (filter : ScreenTitleFilter) : List UInt8 → ScreenTitleFilter × List Piece
  | [] => (filter, [])
  | byte :: bytes =>
    let stepped := filter.step byte
    let rest := stepped.1.run bytes
    (rest.1, stepped.2 ++ rest.2)

end ScreenTitleFilter

/-- The bytes for the emulator. -/
def passed (pieces : List Piece) : List UInt8 :=
  pieces.flatMap fun
    | .passed bytes => bytes
    | .title _ _ => []

/-- The titles as they are reported. -/
def titles (pieces : List Piece) : List String :=
  pieces.filterMap fun
    | .passed _ => none
    | .title body _ => some (fromUtf8Lossy body)

structure Filtered where
  bytes : List UInt8
  titles : List String

/-- A chunk of output. One without an escape byte is passed on as it is when nothing is held back. -/
def ScreenTitleFilter.filter (filter : ScreenTitleFilter) (bytes : List UInt8) :
    ScreenTitleFilter × Filtered :=
  if filter.scan = .normal ∧ esc ∉ bytes then (filter, ⟨bytes, []⟩)
  else
    let ran := filter.run bytes
    (ran.1, ⟨passed ran.2, ScreenTitle.titles ran.2⟩)

/-- All chunks of a stream, with what they give in one. -/
def ScreenTitleFilter.filterAll (filter : ScreenTitleFilter) :
    List (List UInt8) → ScreenTitleFilter × Filtered
  | [] => (filter, ⟨[], []⟩)
  | chunk :: chunks =>
    let first := filter.filter chunk
    let rest := first.1.filterAll chunks
    (rest.1, ⟨first.2.bytes ++ rest.2.bytes, first.2.titles ++ rest.2.titles⟩)

/-! ### Titles put back -/

/-- The output with its titles where they were taken out. -/
def restored (pieces : List Piece) : List UInt8 :=
  pieces.flatMap fun
    | .passed bytes => bytes
    | .title body terminator => [esc, letterK] ++ body ++ terminator.bytes

/-- The unfinished run that the filter holds back. -/
def ScreenTitleFilter.withheld (filter : ScreenTitleFilter) : List UInt8 :=
  match filter.scan with
  | .normal => []
  | .esc => [esc]
  | .body => [esc, letterK] ++ filter.body
  | .bodyEsc => [esc, letterK] ++ filter.body ++ [esc]

/-- An escape byte that comes while the filter waits for the second byte of a terminator. -/
def ScreenTitleFilter.Swallows (filter : ScreenTitleFilter) (byte : UInt8) : Prop :=
  filter.scan = .bodyEsc ∧ byte = esc
  deriving Decidable

@[simp] theorem restored_nil : restored [] = [] := rfl

@[simp] theorem restored_append (first second : List Piece) :
    restored (first ++ second) = restored first ++ restored second :=
  flatMap_append

@[simp] theorem passed_append (first second : List Piece) :
    passed (first ++ second) = passed first ++ passed second :=
  flatMap_append

@[simp] theorem titles_append (first second : List Piece) :
    titles (first ++ second) = titles first ++ titles second :=
  filterMap_append

namespace ScreenTitleFilter

/-! ### Chunks -/

theorem run_append (filter : ScreenTitleFilter) (first second : List UInt8) :
    filter.run (first ++ second) =
      (((filter.run first).1.run second).1,
        (filter.run first).2 ++ ((filter.run first).1.run second).2) := by
  induction first generalizing filter with
  | nil => rfl
  | cons byte first inductionHypothesis =>
    rw [cons_append, run, run, inductionHypothesis, append_assoc]

/-- Outside a sequence, bytes without an escape byte are passed on. -/
theorem run_of_notMem {filter : ScreenTitleFilter} (outside : filter.scan = .normal)
    {bytes : List UInt8} (plain : esc ∉ bytes) :
    (filter.run bytes).1 = filter ∧ passed (filter.run bytes).2 = bytes ∧
      ScreenTitle.titles (filter.run bytes).2 = [] := by
  induction bytes with
  | nil => exact ⟨rfl, rfl, rfl⟩
  | cons byte bytes inductionHypothesis =>
    obtain ⟨other, others⟩ := ne_and_not_mem_of_not_mem_cons plain
    obtain ⟨same, bytesPassed, noTitles⟩ := inductionHypothesis others
    have stepped : filter.step byte = (filter, [.passed [byte]]) := by
      rw [step, outside]
      exact if_neg other.symm
    rw [run, stepped]
    refine ⟨same, ?_, ?_⟩
    · rw [passed_append, bytesPassed]
      rfl
    · rw [titles_append, noTitles]
      rfl

theorem filter_eq (filter : ScreenTitleFilter) (bytes : List UInt8) :
    filter.filter bytes =
      ((filter.run bytes).1,
        ⟨passed (filter.run bytes).2, ScreenTitle.titles (filter.run bytes).2⟩) := by
  rw [ScreenTitleFilter.filter]
  split_ifs with fast
  · obtain ⟨same, bytesPassed, noTitles⟩ := run_of_notMem fast.1 fast.2
    rw [same, bytesPassed, noTitles]
  · rfl

/-- How the output is cut does not matter. -/
theorem filterAll_eq (filter : ScreenTitleFilter) (chunks : List (List UInt8)) :
    filter.filterAll chunks =
      ((filter.run chunks.flatten).1,
        ⟨passed (filter.run chunks.flatten).2,
          ScreenTitle.titles (filter.run chunks.flatten).2⟩) := by
  induction chunks generalizing filter with
  | nil => rfl
  | cons chunk chunks inductionHypothesis =>
    rw [filterAll, filter_eq]
    simp only [flatten_cons, run_append, passed_append, titles_append,
      inductionHypothesis]

/-! ### What is lost -/

theorem step_of_swallows {filter : ScreenTitleFilter} {byte : UInt8}
    (swallows : filter.Swallows byte) : filter.step byte = (filter, []) := by
  obtain ⟨waiting, rfl⟩ := swallows
  rw [step, waiting]
  exact (if_neg (by decide)).trans (if_pos rfl)

/-- A byte that is not swallowed is given out with what was held back before it, or held back
itself. -/
theorem restored_step {filter : ScreenTitleFilter} {byte : UInt8}
    (kept : ¬filter.Swallows byte) :
    restored (filter.step byte).2 ++ (filter.step byte).1.withheld =
      filter.withheld ++ [byte] := by
  obtain ⟨scan, body⟩ := filter
  cases scan with
  | normal =>
    simp only [step, withheld]
    split_ifs with escape
    · rw [escape]
      rfl
    · rfl
  | esc =>
    simp only [step, withheld]
    split_ifs with begins again
    · rw [begins]
      rfl
    · rw [again]
      rfl
    · rfl
  | body =>
    simp only [step, withheld]
    split_ifs with rings escape aborted long <;>
      simp [restored, replay, Terminator.bytes, *]
  | bodyEsc =>
    have other : byte ≠ esc := fun same => kept ⟨rfl, same⟩
    simp only [step, withheld]
    rw [if_neg other]
    split_ifs with ends
    · simp [restored, Terminator.bytes, ends]
    · simp [restored, replay]

/-- The bytes that are swallowed. -/
def swallowed (filter : ScreenTitleFilter) : List UInt8 → Nat
  | [] => 0
  | byte :: bytes =>
    (if filter.Swallows byte then 1 else 0) + (filter.step byte).1.swallowed bytes

theorem restored_run_of_swallowed_eq_zero {filter : ScreenTitleFilter} {bytes : List UInt8}
    (none : filter.swallowed bytes = 0) :
    restored (filter.run bytes).2 ++ (filter.run bytes).1.withheld =
      filter.withheld ++ bytes := by
  induction bytes generalizing filter with
  | nil => rw [run, restored_nil, nil_append, append_nil]
  | cons byte bytes inductionHypothesis =>
    rw [swallowed, Nat.add_eq_zero_iff] at none
    have kept : ¬filter.Swallows byte := fun swallows => by
      rw [if_pos swallows] at none
      exact absurd none.1 (by decide)
    rw [run, restored_append, append_assoc, inductionHypothesis none.2,
      ← append_assoc, restored_step kept, append_assoc]
    rfl

theorem length_restored_run (filter : ScreenTitleFilter) (bytes : List UInt8) :
    (restored (filter.run bytes).2).length + (filter.run bytes).1.withheld.length +
        filter.swallowed bytes =
      filter.withheld.length + bytes.length := by
  induction bytes generalizing filter with
  | nil => simp [run, swallowed]
  | cons byte bytes inductionHypothesis =>
    have rest := inductionHypothesis (filter.step byte).1
    rw [run, restored_append, length_append, length_cons, swallowed]
    by_cases swallows : filter.Swallows byte
    · rw [if_pos swallows]
      rw [step_of_swallows swallows] at rest ⊢
      dsimp only at rest ⊢
      rw [restored_nil, length_nil]
      omega
    · have first := congrArg List.length (restored_step swallows)
      rw [length_append, length_append, length_singleton] at first
      rw [if_neg swallows]
      dsimp only
      omega

theorem swallowed_eq_zero_iff {filter : ScreenTitleFilter} {bytes : List UInt8} :
    filter.swallowed bytes = 0 ↔
      ∀ before byte rest, bytes = before ++ byte :: rest →
        ¬(filter.run before).1.Swallows byte := by
  induction bytes generalizing filter with
  | nil =>
    refine iff_of_true rfl fun before byte rest whole => ?_
    exact absurd whole.symm (append_ne_nil_of_right_ne_nil _ (cons_ne_nil _ _))
  | cons first bytes inductionHypothesis =>
    rw [swallowed, Nat.add_eq_zero_iff, inductionHypothesis]
    constructor
    · rintro ⟨kept, others⟩ before byte rest whole
      cases before with
      | nil =>
        cases whole
        intro swallows
        rw [if_pos (show filter.Swallows first from swallows)] at kept
        cases kept
      | cons head before =>
        cases whole
        exact others before byte rest rfl
    · intro all
      refine ⟨if_neg (all [] first bytes rfl), fun before byte rest whole => ?_⟩
      exact all (first :: before) byte rest (congrArg (first :: ·) whole)

end ScreenTitleFilter

/-! ### Main result -/

/-- What the filter passes on and reports is the stream with its titles taken out, whatever the
chunks, and with the titles put back and the held back run at the end it is the stream exactly
when no escape byte comes while the second byte of a terminator is waited for. -/
theorem restored_eq_iff (chunks : List (List UInt8)) :
    let stream := chunks.flatten
    let ran := ScreenTitleFilter.default.run stream
    ScreenTitleFilter.default.filterAll chunks = (ran.1, ⟨passed ran.2, titles ran.2⟩) ∧
      (restored ran.2 ++ ran.1.withheld = stream ↔
        ∀ before rest, stream = before ++ esc :: rest →
          (ScreenTitleFilter.default.run before).1.scan ≠ .bodyEsc) := by
  refine ⟨ScreenTitleFilter.filterAll_eq _ _, ?_⟩
  have counted := ScreenTitleFilter.length_restored_run .default chunks.flatten
  have exact_iff : restored (ScreenTitleFilter.default.run chunks.flatten).2 ++
        (ScreenTitleFilter.default.run chunks.flatten).1.withheld = chunks.flatten ↔
      ScreenTitleFilter.default.swallowed chunks.flatten = 0 := by
    constructor
    · intro same
      have lengths := congrArg List.length same
      rw [length_append] at lengths
      have empty : ScreenTitleFilter.default.withheld.length = 0 := rfl
      omega
    · exact ScreenTitleFilter.restored_run_of_swallowed_eq_zero
  rw [exact_iff, ScreenTitleFilter.swallowed_eq_zero_iff]
  constructor
  · intro none before rest whole waiting
    exact none before esc rest whole ⟨waiting, rfl⟩
  · rintro none before byte rest whole ⟨waiting, rfl⟩
    exact none before rest whole waiting

/-- The title of `ESC k a ESC ESC \` is reported, and its second escape byte is lost. -/
theorem not_restored_repeated_escape :
    let stream : List UInt8 := [esc, letterK, 0x61, esc, esc, backslash]
    let ran := ScreenTitleFilter.default.run stream
    passed ran.2 = [] ∧ ran.1.withheld = [] ∧
      restored ran.2 ++ ran.1.withheld = [esc, letterK, 0x61, esc, backslash] ∧
      ¬restored ran.2 ++ ran.1.withheld = stream := by
  decide

end Oryxis.Terminal.ScreenTitle

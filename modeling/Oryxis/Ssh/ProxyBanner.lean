/-
This file models the filter over a command proxy's output: whole lines are heard until one starts
with `SSH-`, and that line and everything behind it pass byte for byte. The pipe is a list of
pieces, where an empty piece is a poll that finds nothing there yet, and the reader polls with
buffers of any sizes. The reference splits a stream once and for all into the lines of the talk and
the rest; one poll keeps an invariant that names what is still owed of that rest, and a measure of
the bytes and pieces not yet handed out bounds the polls that deliver it.
-/

import Mathlib.Data.List.Infix
import Mathlib.Algebra.Ring.Nat

namespace Oryxis.Ssh.ProxyBanner

open List

/-! ### The pipe -/

/-- What a poll gives: nothing yet, the bytes that were put into the buffer, or an error. -/
inductive Polled where
  | pending
  | ready (bytes : List UInt8)
  | failed (why : String)

abbrev Pipe := List (List UInt8)

/-- A poll of the pipe with room for so many bytes. -/
def Pipe.poll (room : Nat) : Pipe → Polled × Pipe
  | [] => (.ready [], [])
  | [] :: later => (.pending, later)
  | piece :: later =>
    (.ready (piece.take room),
      if piece.length ≤ room then later else piece.drop room :: later)

/-- The pieces and bytes a pipe still holds. -/
def Pipe.size (pipe : Pipe) : Nat := pipe.length + pipe.flatten.length

variable {room : Nat} {pipe later : Pipe} {bytes : List UInt8}

theorem Pipe.flatten_poll (polled : pipe.poll room = (.ready bytes, later)) :
    bytes ++ later.flatten = pipe.flatten := by
  unfold poll at polled
  split at polled
  · cases polled
    rfl
  · cases polled
  · rename_i piece rest _
    cases polled
    split
    · rename_i whole
      rw [take_of_length_le whole, flatten_cons]
    · rw [flatten_cons, ← append_assoc, take_append_drop, flatten_cons]

theorem Pipe.flatten_poll_pending (polled : pipe.poll room = (.pending, later)) :
    later.flatten = pipe.flatten ∧ later.size < pipe.size := by
  unfold poll at polled
  split at polled
  · cases polled
  · cases polled
    refine ⟨rfl, ?_⟩
    rw [size, size, length_cons, flatten_cons, nil_append]
    omega
  · cases polled

theorem Pipe.eq_nil_of_poll (positive : 0 < room) (polled : pipe.poll room = (.ready [], later)) :
    pipe = [] ∧ later = [] := by
  unfold poll at polled
  split at polled
  · cases polled
    exact ⟨rfl, rfl⟩
  · cases polled
  · rename_i piece rest some
    have none := congrArg Prod.fst polled
    rw [Polled.ready.injEq, take_eq_nil_iff] at none
    rcases none with zero | empty
    · omega
    · exact (some empty).elim

theorem Pipe.size_poll (polled : pipe.poll room = (.ready bytes, later)) :
    later.size + bytes.length ≤ pipe.size := by
  have kept := congrArg List.length (flatten_poll polled)
  rw [length_append] at kept
  have pieces : later.length ≤ pipe.length := by
    unfold poll at polled
    split at polled
    · cases polled
      exact Nat.le_refl _
    · cases polled
    · cases polled
      split
      · exact Nat.le_succ _
      · exact Nat.le_refl _
  rw [size, size]
  omega

theorem Pipe.size_poll_lt (some : bytes ≠ []) (polled : pipe.poll room = (.ready bytes, later)) :
    later.size < pipe.size := by
  have kept := size_poll polled
  have positive := length_pos_iff.mpr some
  omega

/-! ### Lines -/

def newline : UInt8 := 0x0a

/-- `SSH-`, the start of an identification. -/
def sshMark : List UInt8 := [0x53, 0x53, 0x48, 0x2d]

/-- The first line and what is behind its newline. -/
def splitLine : List UInt8 → Option (List UInt8 × List UInt8)
  | [] => none
  | byte :: rest =>
    if byte = newline then some ([], rest)
    else (splitLine rest).map fun (line, behind) => (byte :: line, behind)

variable {line behind : List UInt8}

theorem splitLine_eq_some_iff :
    splitLine bytes = some (line, behind) ↔ newline ∉ line ∧ bytes = line ++ newline :: behind := by
  induction bytes generalizing line with
  | nil =>
    rw [splitLine]
    constructor
    · intro same
      cases same
    · rintro ⟨_, holds⟩
      cases line <;> cases holds
  | cons byte rest inductionHypothesis =>
    rw [splitLine]
    split
    · rename_i isNewline
      subst isNewline
      constructor
      · intro same
        cases same
        exact ⟨not_mem_nil, rfl⟩
      · rintro ⟨clean, holds⟩
        cases line with
        | nil =>
          cases holds
          rfl
        | cons first line =>
          cases holds
          exact (clean mem_cons_self).elim
    · rename_i other
      rw [Option.map_eq_some_iff]
      constructor
      · rintro ⟨⟨shorter, rest'⟩, split, same⟩
        cases same
        obtain ⟨clean, rfl⟩ := inductionHypothesis.mp split
        refine ⟨?_, rfl⟩
        rw [mem_cons, not_or]
        exact ⟨fun same => other same.symm, clean⟩
      · rintro ⟨clean, holds⟩
        cases line with
        | nil =>
          cases holds
          exact (other rfl).elim
        | cons first line =>
          cases holds
          rw [mem_cons, not_or] at clean
          exact ⟨(line, behind), inductionHypothesis.mpr ⟨clean.2, rfl⟩, rfl⟩

theorem splitLine_eq_none_iff : splitLine bytes = none ↔ newline ∉ bytes := by
  induction bytes with
  | nil => exact ⟨fun _ => not_mem_nil, fun _ => rfl⟩
  | cons byte rest inductionHypothesis =>
    rw [splitLine, mem_cons, not_or]
    split
    · rename_i isNewline
      constructor
      · intro same
        cases same
      · rintro ⟨clean, _⟩
        exact (clean isNewline.symm).elim
    · rename_i other
      rw [Option.map_eq_none_iff, inductionHypothesis]
      exact ⟨fun clean => ⟨fun same => other same.symm, clean⟩, fun clean => clean.2⟩

theorem length_behind_lt (split : splitLine bytes = some (line, behind)) :
    behind.length < bytes.length := by
  obtain ⟨_, rfl⟩ := splitLine_eq_some_iff.mp split
  rw [length_append, length_cons]
  omega

/-! ### The filter -/

def maxPreBannerLines : Nat := 1024

def maxPreBannerLineLen : Nat := 8192

inductive FilterState where
  | scanning (buf : List UInt8) (lines : Nat)
  | draining (pending : List UInt8) (pos : Nat)
  | through

/-- The filter, and the lines handed to the proxy's voice so far. -/
structure PreBannerFilter where
  state : FilterState
  heard : List (List UInt8)

def PreBannerFilter.new : PreBannerFilter := ⟨.scanning [] 0, []⟩

/-- The bytes of a line that are read as text: all but one carriage return at the end. -/
def lineText (line : List UInt8) : List UInt8 :=
  if line.getLast? = some 0x0d then line.dropLast else line

def lineTooLong : String := "the command proxy printed a line over 8192 bytes before the SSH banner"

def tooManyLines : String := "the command proxy printed more than 1024 lines before the SSH banner"

/-- How a scan of the buffered lines ends. -/
inductive Scanned where
  | failed (why : String) (buf : List UInt8) (lines : Nat) (heard : List (List UInt8))
  | banner (pending : List UInt8) (heard : List (List UInt8))
  | more (buf : List UInt8) (lines : Nat) (heard : List (List UInt8))

/-- Every whole line already in: the banner ends the scan, anything else is the proxy talking. -/
def scanLines (buf : List UInt8) (lines : Nat) (heard : List (List UInt8)) : Scanned :=
  match _split : splitLine buf with
  | none => .more buf lines heard
  | some (line, behind) =>
    if maxPreBannerLineLen < line.length then .failed lineTooLong buf lines heard
    else if sshMark.isPrefixOf buf then .banner buf heard
    else if maxPreBannerLines < lines + 1 then .failed tooManyLines behind (lines + 1) heard
    else scanLines behind (lines + 1) (heard ++ [lineText line])
termination_by buf.length
decreasing_by exact length_behind_lt _split

/-- Hand out of what came with the banner as much as there is room for. -/
def drain (room : Nat) (pending : List UInt8) (pos : Nat) (heard : List (List UInt8)) :
    Polled × PreBannerFilter :=
  let n := min (pending.length - pos) room
  (.ready ((pending.drop pos).take n),
    if pos + n = pending.length then ⟨.through, heard⟩ else ⟨.draining pending (pos + n), heard⟩)

def pollScanning (room : Nat) (buf : List UInt8) (lines : Nat) (heard : List (List UInt8))
    (pipe : Pipe) : Polled × PreBannerFilter × Pipe :=
  match scanLines buf lines heard with
  | .failed why buf lines heard => (.failed why, ⟨.scanning buf lines, heard⟩, pipe)
  | .banner pending heard =>
    let drained := drain room pending 0 heard
    (drained.1, drained.2, pipe)
  | .more buf lines heard =>
    if maxPreBannerLineLen < buf.length then
      (.failed lineTooLong, ⟨.scanning buf lines, heard⟩, pipe)
    else
      match _polled : pipe.poll 4096 with
      | (.pending, later) => (.pending, ⟨.scanning buf lines, heard⟩, later)
      | (.failed why, later) => (.failed why, ⟨.scanning buf lines, heard⟩, later)
      | (.ready got, later) =>
        if _empty : got = [] then
          -- the end before any banner: what was left of a line is said too
          (.ready [], ⟨.through, if buf = [] then heard else heard ++ [lineText buf]⟩, later)
        else pollScanning room (buf ++ got) lines heard later
termination_by pipe.size
decreasing_by exact Pipe.size_poll_lt _empty _polled

/-- A poll of the filter with room for so many bytes. -/
def PreBannerFilter.poll (room : Nat) (filter : PreBannerFilter) (pipe : Pipe) :
    Polled × PreBannerFilter × Pipe :=
  match filter.state with
  | .through =>
    let polled := pipe.poll room
    (polled.1, filter, polled.2)
  | .draining pending pos =>
    let drained := drain room pending pos filter.heard
    (drained.1, drained.2, pipe)
  | .scanning buf lines => pollScanning room buf lines filter.heard pipe

/-! ### A reader -/

/-- How a reader's polls came to an end: an empty answer to a buffer with room, or an error. -/
inductive Ending where
  | eof
  | failed (why : String)

structure Reading where
  delivered : List UInt8
  heard : List (List UInt8)
  ending : Option Ending

/-- A reader that polls with buffers of these sizes until the end or an error. -/
def PreBannerFilter.read (filter : PreBannerFilter) (pipe : Pipe) : List Nat → Reading
  | [] => ⟨[], filter.heard, none⟩
  | room :: rooms =>
    match filter.poll room pipe with
    | (.pending, after, later) => after.read later rooms
    | (.failed why, after, _) => ⟨[], after.heard, some (.failed why)⟩
    | (.ready bytes, after, later) =>
      if bytes = [] ∧ 0 < room then ⟨[], after.heard, some .eof⟩
      else
        let rest := after.read later rooms
        ⟨bytes ++ rest.delivered, rest.heard, rest.ending⟩

/-! ### What a stream says -/

/-- A stream is the lines of the talk, and a rest that is the banner and what follows it or holds
no whole line. -/
structure Splits (stream : List UInt8) (lines : List (List UInt8)) (rest : List UInt8) : Prop where
  whole : stream = (lines.map fun line => line ++ [newline]).flatten ++ rest
  talk : ∀ line ∈ lines, newline ∉ line ∧ ¬ sshMark <+: line
  banner : newline ∈ rest → sshMark <+: rest

/-- The line that starts a text. -/
def firstLine (text : List UInt8) : List UInt8 := text.takeWhile (· ≠ newline)

/-- More than the limits allow before the banner or in it, after so many lines. -/
def TooMuch (before : Nat) (lines : List (List UInt8)) (rest : List UInt8) : Prop :=
  (∃ line ∈ lines, maxPreBannerLineLen < line.length) ∨
    maxPreBannerLines < before + lines.length ∨ maxPreBannerLineLen < (firstLine rest).length

/-- What passes of a rest: the banner and all behind it. -/
def passing (rest : List UInt8) : List UInt8 := if newline ∈ rest then rest else []

/-- What is said of a rest: a piece of a line that never ended. -/
def lastWords (rest : List UInt8) : List (List UInt8) :=
  if newline ∈ rest ∨ rest = [] then [] else [lineText rest]

theorem append_newline_inj {other later : List UInt8} (clean : newline ∉ line)
    (clean' : newline ∉ other) (same : line ++ newline :: behind = other ++ newline :: later) :
    line = other ∧ behind = later := by
  have first : splitLine (line ++ newline :: behind) = some (line, behind) :=
    splitLine_eq_some_iff.mpr ⟨clean, rfl⟩
  have second := splitLine_eq_some_iff.mpr ⟨clean', same⟩
  rw [first] at second
  cases second
  exact ⟨rfl, rfl⟩

theorem sshMark_prefix_iff (behind : List UInt8) :
    sshMark <+: line ++ newline :: behind ↔ sshMark <+: line := by
  constructor
  · intro marked
    have front : line <+: line ++ newline :: behind := prefix_append _ _
    rcases prefix_or_prefix_of_prefix marked front with inside | ⟨rest, cut⟩
    · exact inside
    · cases rest with
      | nil =>
        rw [append_nil] at cut
        exact cut ▸ prefix_refl _
      | cons byte rest =>
        obtain ⟨tail, whole⟩ := marked
        rw [← cut, append_assoc, append_cancel_left_eq, cons_append] at whole
        have isNewline := (cons.inj whole).1
        have inside : newline ∈ sshMark := by
          rw [← cut, isNewline]
          exact mem_append_right _ mem_cons_self
        exact absurd inside (by decide)
  · intro marked
    exact marked.trans (prefix_append _ _)

theorem firstLine_append {text : List UInt8} (clean : newline ∉ text) (behind : List UInt8) :
    firstLine (text ++ behind) = text ++ firstLine behind := by
  rw [firstLine, takeWhile_append_of_pos]
  · rfl
  · intro byte member
    rw [decide_eq_true_eq]
    rintro rfl
    exact clean member

theorem firstLine_of_line (clean : newline ∉ line) (behind : List UInt8) :
    firstLine (line ++ newline :: behind) = line := by
  rw [firstLine_append clean, firstLine, takeWhile_cons_of_neg (by simp), append_nil]

theorem firstLine_of_clean {text : List UInt8} (clean : newline ∉ text) : firstLine text = text := by
  have all := firstLine_append clean []
  rw [append_nil] at all
  exact all.trans (append_nil text)

/-! ### Scanning -/

variable {rest : List UInt8} {lines : List (List UInt8)}

/-- A line that is no banner is the next line of the talk. -/
theorem Splits.cons_of_talk (splits : Splits (line ++ newline :: behind) lines rest)
    (clean : newline ∉ line) (unmarked : ¬ sshMark <+: line) :
    ∃ left, lines = line :: left ∧ Splits behind left rest := by
  obtain ⟨whole, talk, banner⟩ := splits
  cases lines with
  | nil =>
    rw [map_nil, flatten_nil, nil_append] at whole
    subst whole
    have marked := banner (mem_append_right _ mem_cons_self)
    exact (unmarked ((sshMark_prefix_iff behind).mp marked)).elim
  | cons first left =>
    rw [forall_mem_cons] at talk
    rw [map_cons, flatten_cons, append_assoc, append_assoc,
      singleton_append] at whole
    obtain ⟨rfl, same⟩ := append_newline_inj clean talk.1.1 whole
    exact ⟨left, rfl, same, talk.2, banner⟩

/-- A line that starts with the mark is where the rest begins. -/
theorem Splits.eq_nil_of_marked (splits : Splits (line ++ newline :: behind) lines rest)
    (clean : newline ∉ line) (marked : sshMark <+: line) :
    lines = [] ∧ rest = line ++ newline :: behind := by
  obtain ⟨whole, talk, banner⟩ := splits
  cases lines with
  | nil =>
    rw [map_nil, flatten_nil, nil_append] at whole
    exact ⟨rfl, whole.symm⟩
  | cons first left =>
    rw [forall_mem_cons] at talk
    rw [map_cons, flatten_cons, append_assoc, append_assoc,
      singleton_append] at whole
    obtain ⟨rfl, _⟩ := append_newline_inj clean talk.1.1 whole
    exact (talk.1.2 marked).elim

theorem tooMuch_cons {before : Nat} (short : ¬maxPreBannerLineLen < line.length) :
    TooMuch before (line :: lines) rest ↔ TooMuch (before + 1) lines rest := by
  unfold TooMuch
  rw [length_cons, exists_mem_cons_iff, Nat.add_right_comm, Nat.add_assoc before]
  simp only [short, false_or]

/-- What a scan of the buffered lines leaves, for a stream that still splits this way. -/
inductive ScanLeaves (buf : List UInt8) (lines : Nat) (heard : List (List UInt8))
    (later : List UInt8) (left : List (List UInt8)) (rest : List UInt8) : Scanned → Prop where
  | failed {why : String} {buf' : List UInt8} {lines' : Nat} {heard' : List (List UInt8)}
      (tooMuch : TooMuch lines left rest) (kept : heard' <+: heard ++ left.map lineText) :
      ScanLeaves buf lines heard later left rest (.failed why buf' lines' heard')
  | banner {pending : List UInt8} {heard' : List (List UInt8)}
      (within : ¬TooMuch lines left rest) (all : heard' = heard ++ left.map lineText)
      (isBanner : newline ∈ rest) (whole : rest = pending ++ later) (some : pending ≠ [])
      (fewer : pending.length ≤ buf.length) :
      ScanLeaves buf lines heard later left rest (.banner pending heard')
  | more {buf' : List UInt8} {lines' : Nat} {heard' : List (List UInt8)}
      {left' : List (List UInt8)} (clean : newline ∉ buf') (few : lines' ≤ maxPreBannerLines)
      (splits : Splits (buf' ++ later) left' rest)
      (same : TooMuch lines left rest ↔ TooMuch lines' left' rest)
      (all : heard' ++ left'.map lineText = heard ++ left.map lineText)
      (fewer : buf'.length ≤ buf.length) :
      ScanLeaves buf lines heard later left rest (.more buf' lines' heard')

variable {buf : List UInt8} {heard : List (List UInt8)}

theorem scanLines_of_some {lines : Nat} (split : splitLine buf = some (line, behind)) :
    scanLines buf lines heard =
      if maxPreBannerLineLen < line.length then .failed lineTooLong buf lines heard
      else if sshMark.isPrefixOf buf then .banner buf heard
      else if maxPreBannerLines < lines + 1 then .failed tooManyLines behind (lines + 1) heard
      else scanLines behind (lines + 1) (heard ++ [lineText line]) := by
  rw [scanLines]
  split
  · rename_i none
    rw [split] at none
    cases none
  · rename_i same
    rw [split] at same
    cases same
    rfl

theorem scanLines_of_none {lines : Nat} (split : splitLine buf = none) :
    scanLines buf lines heard = .more buf lines heard := by
  rw [scanLines]
  split
  · rfl
  · rename_i some
    rw [split] at some
    cases some

variable {left : List (List UInt8)}

theorem scanLines_leaves {lines : Nat} (heard : List (List UInt8)) {later : List UInt8}
    (few : lines ≤ maxPreBannerLines) (splits : Splits (buf ++ later) left rest) :
    ScanLeaves buf lines heard later left rest (scanLines buf lines heard) := by
  induction buf, lines, heard using scanLines.induct generalizing left with
  | case1 buf lines heard split =>
    rw [scanLines_of_none split]
    exact .more (splitLine_eq_none_iff.mp split) few splits Iff.rfl rfl (Nat.le_refl _)
  | case2 buf lines heard line behind split long =>
    rw [scanLines_of_some split, if_pos long]
    obtain ⟨clean, rfl⟩ := splitLine_eq_some_iff.mp split
    rw [append_assoc, cons_append] at splits
    refine .failed ?_ (prefix_append _ _)
    by_cases marked : sshMark <+: line
    · obtain ⟨_, rfl⟩ := splits.eq_nil_of_marked clean marked
      exact .inr (.inr (by rw [firstLine_of_line clean]; exact long))
    · obtain ⟨others, rfl, _⟩ := splits.cons_of_talk clean marked
      exact .inl ⟨line, mem_cons_self, long⟩
  | case3 buf lines heard line behind split short isMarked =>
    rw [scanLines_of_some split, if_neg short, if_pos isMarked]
    obtain ⟨clean, rfl⟩ := splitLine_eq_some_iff.mp split
    rw [List.isPrefixOf_iff_prefix, sshMark_prefix_iff] at isMarked
    rw [append_assoc, cons_append] at splits
    obtain ⟨rfl, rfl⟩ := splits.eq_nil_of_marked clean isMarked
    refine .banner ?_ (append_nil _).symm (mem_append_right _ mem_cons_self) ?_
      (by simp) (Nat.le_refl _)
    · rintro (⟨other, member, _⟩ | many | long)
      · exact not_mem_nil member
      · exact absurd many (Nat.not_lt.mpr few)
      · rw [firstLine_of_line clean] at long
        exact short long
    · rw [append_assoc, cons_append]
  | case4 buf lines heard line behind split short unmarked many =>
    rw [scanLines_of_some split, if_neg short, if_neg unmarked, if_pos many]
    obtain ⟨clean, rfl⟩ := splitLine_eq_some_iff.mp split
    rw [List.isPrefixOf_iff_prefix, sshMark_prefix_iff] at unmarked
    rw [append_assoc, cons_append] at splits
    obtain ⟨others, rfl, _⟩ := splits.cons_of_talk clean unmarked
    refine .failed (.inr (.inl ?_)) (prefix_append _ _)
    rw [length_cons]
    omega
  | case5 buf lines heard line behind split short unmarked room inductionHypothesis =>
    rw [scanLines_of_some split, if_neg short, if_neg unmarked, if_neg room]
    obtain ⟨clean, rfl⟩ := splitLine_eq_some_iff.mp split
    rw [List.isPrefixOf_iff_prefix, sshMark_prefix_iff] at unmarked
    rw [append_assoc, cons_append] at splits
    obtain ⟨others, rfl, behindSplits⟩ := splits.cons_of_talk clean unmarked
    have leaves := inductionHypothesis (Nat.not_lt.mp room) behindSplits
    have asOne : heard ++ [lineText line] ++ others.map lineText =
        heard ++ (line :: others).map lineText := by
      rw [append_assoc, singleton_append, map_cons]
    have shorter : behind.length ≤ (line ++ newline :: behind).length :=
      Nat.le_of_lt (length_behind_lt split)
    generalize scanLines behind (lines + 1) (heard ++ [lineText line]) = scanned at leaves ⊢
    cases leaves with
    | failed tooMuch kept =>
      exact .failed ((tooMuch_cons short).mpr tooMuch) (asOne ▸ kept)
    | banner within all isBanner whole some fewer =>
      exact .banner (fun tooMuch => within ((tooMuch_cons short).mp tooMuch))
        (all.trans asOne) isBanner whole some (Nat.le_trans fewer shorter)
    | more clean few splits same all fewer =>
      exact .more clean few splits ((tooMuch_cons short).trans same) (all.trans asOne)
        (Nat.le_trans fewer shorter)

/-! ### Polls -/

/-- What is still owed of a stream that splits into these lines and this rest, with so much of it
delivered. -/
inductive Owes (lines : List (List UInt8)) (rest : List UInt8) :
    PreBannerFilter → Pipe → List UInt8 → Prop where
  | scanning {buf : List UInt8} {n : Nat} {heard left : List (List UInt8)} {pipe : Pipe}
      (few : n ≤ maxPreBannerLines) (splits : Splits (buf ++ pipe.flatten) left rest)
      (same : TooMuch 0 lines rest ↔ TooMuch n left rest)
      (all : heard ++ left.map lineText = lines.map lineText) :
      Owes lines rest ⟨.scanning buf n, heard⟩ pipe []
  | draining {pending delivered : List UInt8} {pos : Nat} {heard : List (List UInt8)} {pipe : Pipe}
      (within : ¬TooMuch 0 lines rest) (all : heard = lines.map lineText)
      (isBanner : newline ∈ rest) (whole : delivered ++ (pending.drop pos ++ pipe.flatten) = rest)
      (inside : pos < pending.length) :
      Owes lines rest ⟨.draining pending pos, heard⟩ pipe delivered
  | through {delivered : List UInt8} {heard : List (List UInt8)} {pipe : Pipe}
      (within : ¬TooMuch 0 lines rest) (all : heard = lines.map lineText ++ lastWords rest)
      (whole : delivered ++ pipe.flatten = passing rest) :
      Owes lines rest ⟨.through, heard⟩ pipe delivered

/-- The bytes a filter holds back. -/
def PreBannerFilter.held (filter : PreBannerFilter) : Nat :=
  match filter.state with
  | .scanning buf _ => buf.length
  | .draining pending pos => pending.length - pos
  | .through => 0

/-- What one poll leaves of what is owed. -/
inductive PollLeaves (lines : List (List UInt8)) (rest delivered : List UInt8) (room debt : Nat) :
    Polled × PreBannerFilter × Pipe → Prop where
  | pending {after : PreBannerFilter} {later : Pipe} (owes : Owes lines rest after later delivered)
      (fewer : later.size + after.held < debt) :
      PollLeaves lines rest delivered room debt (.pending, after, later)
  | ready {bytes : List UInt8} {after : PreBannerFilter} {later : Pipe}
      (owes : Owes lines rest after later (delivered ++ bytes))
      (fewer : later.size + after.held ≤ debt)
      (spent : bytes ≠ [] → later.size + after.held < debt)
      (ended : bytes = [] → 0 < room → ¬TooMuch 0 lines rest ∧ delivered = passing rest ∧
        after.heard = lines.map lineText ++ lastWords rest) :
      PollLeaves lines rest delivered room debt (.ready bytes, after, later)
  | failed {why : String} {after : PreBannerFilter} {later : Pipe}
      (tooMuch : TooMuch 0 lines rest) (nothing : delivered = [])
      (kept : after.heard <+: lines.map lineText ++ lastWords rest) :
      PollLeaves lines rest delivered room debt (.failed why, after, later)

theorem lastWords_of_banner (isBanner : newline ∈ rest) :
    lastWords rest = [] := if_pos (.inl isBanner)

theorem passing_of_banner (isBanner : newline ∈ rest) :
    passing rest = rest := if_pos isBanner

variable {delivered : List UInt8}

/-- Handing out of the banner's bytes keeps account of the rest. -/
theorem pollLeaves_drain {pending : List UInt8} {pos debt : Nat} (room : Nat)
    (within : ¬TooMuch 0 lines rest) (all : heard = lines.map lineText) (isBanner : newline ∈ rest)
    (whole : delivered ++ (pending.drop pos ++ pipe.flatten) = rest) (inside : pos < pending.length)
    (debtLe : pipe.size + (pending.length - pos) ≤ debt) :
    PollLeaves lines rest delivered room debt
      ((drain room pending pos heard).1, (drain room pending pos heard).2, pipe) := by
  have given : ((pending.drop pos).take (min (pending.length - pos) room)).length =
      min (pending.length - pos) room := by
    rw [length_take, length_drop]
    omega
  have behind : pending.drop (pos + min (pending.length - pos) room) =
      (pending.drop pos).drop (min (pending.length - pos) room) := drop_drop.symm
  have split : (pending.drop pos).take (min (pending.length - pos) room) ++
      (pending.drop (pos + min (pending.length - pos) room) ++ pipe.flatten) =
        pending.drop pos ++ pipe.flatten := by
    rw [behind, ← append_assoc, take_append_drop]
  have least : 0 < room → 0 < min (pending.length - pos) room := by omega
  have most : min (pending.length - pos) room ≤ pending.length - pos := Nat.min_le_left _ _
  rw [drain]
  generalize min (pending.length - pos) room = n at *
  have nonempty : (pending.drop pos).take n = [] → n = 0 := by
    intro empty
    rw [empty] at given
    exact given.symm
  have ended : (pending.drop pos).take n = [] → 0 < room → ¬TooMuch 0 lines rest ∧
      delivered = passing rest ∧ heard = lines.map lineText ++ lastWords rest := by
    intro empty positive
    have zero := nonempty empty
    have positive := least positive
    omega
  have spends : (pending.drop pos).take n ≠ [] → 0 < n := by
    intro some
    by_contra zero
    exact some (by rw [Nat.eq_zero_of_not_pos zero, take_zero])
  by_cases last : pos + n = pending.length
  · rw [if_pos last]
    rw [last, drop_length, nil_append] at split
    refine .ready (.through within ?_ ?_) ?_ ?_ ended
    · rw [all, lastWords_of_banner isBanner, append_nil]
    · rw [append_assoc, split, whole, passing_of_banner isBanner]
    · exact Nat.le_trans (Nat.add_le_add_left (Nat.zero_le _) _) debtLe
    · intro some
      change pipe.size + 0 < debt
      omega
  · rw [if_neg last]
    refine .ready (.draining within all isBanner ?_ (by omega)) ?_ ?_ ended
    · rw [append_assoc, split, whole]
    · change pipe.size + (pending.length - (pos + n)) ≤ debt
      omega
    · intro some
      have positive := spends some
      change pipe.size + (pending.length - (pos + n)) < debt
      omega

theorem Pipe.poll_ne_failed {why : String} :
    pipe.poll room ≠ (.failed why, later) := by
  intro polled
  unfold poll at polled
  split at polled <;> cases polled

variable {n : Nat}

/-- A line that is already too long is too long once its newline has come. -/
theorem tooMuch_of_long {later : List UInt8} (splits : Splits (buf ++ later) left rest)
    (clean : newline ∉ buf) (long : maxPreBannerLineLen < buf.length) : TooMuch n left rest := by
  obtain ⟨whole, talk, _⟩ := splits
  have first := firstLine_append clean later
  have longer := congrArg List.length first
  rw [length_append] at longer
  cases left with
  | nil =>
    rw [map_nil, flatten_nil, nil_append] at whole
    rw [whole] at longer
    exact .inr (.inr (by omega))
  | cons line others =>
    rw [forall_mem_cons] at talk
    rw [map_cons, flatten_cons, append_assoc, append_assoc,
      singleton_append] at whole
    rw [whole, firstLine_of_line talk.1.1] at longer
    exact .inl ⟨line, mem_cons_self, by omega⟩

/-- A stream that ends without a newline is all rest. -/
theorem Splits.eq_of_clean (splits : Splits buf left rest) (clean : newline ∉ buf) :
    left = [] ∧ rest = buf := by
  obtain ⟨whole, _, _⟩ := splits
  cases left with
  | nil =>
    rw [map_nil, flatten_nil, nil_append] at whole
    exact ⟨rfl, whole.symm⟩
  | cons line others =>
    have inside : newline ∈ buf := by
      rw [whole, map_cons, flatten_cons]
      exact mem_append_left _
        (mem_append_left _ (mem_append_right _ (mem_singleton_self _)))
    exact (clean inside).elim

theorem pollScanning_of_more {n' : Nat} {buf' : List UInt8} {heard' : List (List UInt8)}
    (scanned : scanLines buf n heard = .more buf' n' heard')
    (fits : ¬maxPreBannerLineLen < buf'.length) :
    pollScanning room buf n heard pipe =
      match pipe.poll 4096 with
      | (.pending, later) => (.pending, ⟨.scanning buf' n', heard'⟩, later)
      | (.failed why, later) => (.failed why, ⟨.scanning buf' n', heard'⟩, later)
      | (.ready got, later) =>
        if got = [] then
          (.ready [], ⟨.through, if buf' = [] then heard' else heard' ++ [lineText buf']⟩, later)
        else pollScanning room (buf' ++ got) n' heard' later := by
  rw [pollScanning, scanned]
  simp only [if_neg fits]
  split <;> simp_all

theorem pollScanning_leaves (room : Nat) (few : n ≤ maxPreBannerLines)
    (splits : Splits (buf ++ pipe.flatten) left rest)
    (same : TooMuch 0 lines rest ↔ TooMuch n left rest)
    (all : heard ++ left.map lineText = lines.map lineText) {debt : Nat}
    (debtLe : pipe.size + buf.length ≤ debt) :
    PollLeaves lines rest [] room debt (pollScanning room buf n heard pipe) := by
  induction buf, n, heard, pipe using pollScanning.induct room generalizing left with
  | case1 buf n heard pipe why buf' n' heard' scanned =>
    have leaves := scanLines_leaves heard few splits
    rw [pollScanning, scanned]
    rw [scanned] at leaves
    cases leaves with
    | failed tooMuch kept =>
      exact .failed (same.mpr tooMuch) rfl ((all ▸ kept).trans (prefix_append _ _))
  | case2 buf n heard pipe pending heard' scanned =>
    have leaves := scanLines_leaves heard few splits
    rw [pollScanning, scanned]
    rw [scanned] at leaves
    cases leaves with
    | banner within told isBanner whole some fewer =>
      have positive := length_pos_iff.mpr some
      refine pollLeaves_drain room (fun tooMuch => within (same.mp tooMuch)) (told.trans all)
        isBanner whole.symm positive (by omega)
  | case3 buf n heard pipe buf' n' heard' scanned long =>
    have leaves := scanLines_leaves heard few splits
    rw [pollScanning, scanned]
    rw [scanned] at leaves
    simp only [if_pos long]
    cases leaves with
    | more clean few' splits' same' told fewer =>
      have tooMuch := (same.trans same').mpr (tooMuch_of_long splits' clean long)
      refine .failed tooMuch rfl (.trans ?_ (prefix_append _ _))
      rw [← all, ← told]
      exact prefix_append _ _
  | case4 buf n heard pipe buf' n' heard' scanned fits later polled =>
    have leaves := scanLines_leaves heard few splits
    rw [pollScanning_of_more scanned fits, polled]
    rw [scanned] at leaves
    cases leaves with
    | more clean few' splits' same' told fewer =>
      obtain ⟨sameRest, smaller⟩ := Pipe.flatten_poll_pending polled
      refine .pending (.scanning few' (sameRest.symm ▸ splits') (same.trans same')
        (told.trans all)) ?_
      change later.size + buf'.length < debt
      omega
  | case5 buf n heard pipe buf' n' heard' scanned fits why later polled =>
    exact absurd polled Pipe.poll_ne_failed
  | case6 buf n heard pipe buf' n' heard' scanned fits later polled =>
    have leaves := scanLines_leaves heard few splits
    rw [pollScanning_of_more scanned fits, polled]
    rw [scanned] at leaves
    cases leaves with
    | more clean few' splits' same' told fewer =>
      obtain ⟨rfl, rfl⟩ := Pipe.eq_nil_of_poll (by decide) polled
      rw [flatten_nil, append_nil] at splits'
      obtain ⟨rfl, rfl⟩ := splits'.eq_of_clean clean
      have within : ¬TooMuch 0 lines rest := by
        rw [same.trans same']
        rintro (⟨line, member, _⟩ | many | long)
        · exact not_mem_nil member
        · exact absurd many (Nat.not_lt.mpr few')
        · rw [firstLine_of_clean clean] at long
          exact fits long
      have notPassing : passing rest = [] := if_neg clean
      have said : (if rest = [] then heard' else heard' ++ [lineText rest]) =
          lines.map lineText ++ lastWords rest := by
        rw [← all, ← told, map_nil, append_nil, lastWords]
        by_cases empty : rest = []
        · rw [if_pos empty, if_pos (.inr empty), append_nil]
        · rw [if_neg empty, if_neg (not_or.mpr ⟨clean, empty⟩)]
      refine .ready (.through within said ?_) ?_ (absurd rfl) fun _ _ =>
        ⟨within, notPassing.symm, said⟩
      · rw [notPassing]
        rfl
      · exact Nat.zero_le _
  | case7 buf n heard pipe buf' n' heard' scanned fits got later polled some inductionHypothesis =>
    have leaves := scanLines_leaves heard few splits
    rw [pollScanning_of_more scanned fits, polled]
    rw [scanned] at leaves
    simp only [if_neg some]
    cases leaves with
    | more clean few' splits' same' told fewer =>
      have kept := Pipe.flatten_poll polled
      have smaller := Pipe.size_poll polled
      rw [← kept, ← append_assoc] at splits'
      refine inductionHypothesis few' splits' (same.trans same') (told.trans all) ?_
      rw [length_append]
      omega

variable {filter : PreBannerFilter}

/-- A poll keeps account of what is owed. -/
theorem Owes.poll (owes : Owes lines rest filter pipe delivered) (room : Nat) :
    PollLeaves lines rest delivered room (pipe.size + filter.held)
      (filter.poll room pipe) := by
  cases owes with
  | scanning few splits same all =>
    exact pollScanning_leaves room few splits same all (Nat.le_refl _)
  | draining within all isBanner whole inside =>
    exact pollLeaves_drain room within all isBanner whole inside (Nat.le_refl _)
  | through within all whole =>
    rw [PreBannerFilter.poll]
    cases polled : pipe.poll room with
    | mk result later =>
      cases result with
      | failed why => exact absurd polled Pipe.poll_ne_failed
      | pending =>
        obtain ⟨sameRest, smaller⟩ := Pipe.flatten_poll_pending polled
        exact .pending (.through within all (sameRest.symm ▸ whole)) smaller
      | ready bytes =>
        have kept := Pipe.flatten_poll polled
        have smaller := Pipe.size_poll polled
        refine .ready (.through within all ?_) ?_ ?_ ?_
        · rw [append_assoc, kept, whole]
        · change later.size + 0 ≤ pipe.size + 0
          omega
        · intro some
          exact Pipe.size_poll_lt some polled
        · rintro rfl positive
          obtain ⟨rfl, _⟩ := Pipe.eq_nil_of_poll positive polled
          rw [flatten_nil, append_nil] at whole
          exact ⟨within, whole, all⟩

theorem Owes.heard_prefix (owes : Owes lines rest filter pipe delivered) :
    filter.heard <+: lines.map lineText ++ lastWords rest := by
  cases owes with
  | scanning few splits same all =>
    rw [← all, append_assoc]
    exact prefix_append _ _
  | draining within all isBanner whole inside =>
    rw [all]
    exact prefix_append _ _
  | through within all whole =>
    rw [all]

theorem Owes.delivered_prefix (owes : Owes lines rest filter pipe delivered) :
    delivered <+: passing rest ∧ (TooMuch 0 lines rest → delivered = []) := by
  cases owes with
  | scanning few splits same all => exact ⟨List.nil_prefix, fun _ => rfl⟩
  | draining within all isBanner whole inside =>
    refine ⟨?_, fun tooMuch => (within tooMuch).elim⟩
    rw [passing_of_banner isBanner, ← whole]
    exact prefix_append _ _
  | through within all whole =>
    rw [← whole]
    exact ⟨prefix_append _ _, fun tooMuch => (within tooMuch).elim⟩

/-! ### Readers -/

/-- What a reader gets of a stream that splits into these lines and this rest. -/
structure Faithful (lines : List (List UInt8)) (rest : List UInt8) (reading : Reading) : Prop where
  delivered : reading.delivered <+: passing rest
  heard : reading.heard <+: lines.map lineText ++ lastWords rest
  nothing : TooMuch 0 lines rest → reading.delivered = []
  eof : reading.ending = some .eof → ¬TooMuch 0 lines rest ∧ reading.delivered = passing rest ∧
    reading.heard = lines.map lineText ++ lastWords rest
  failed : ∀ why, reading.ending = some (.failed why) → TooMuch 0 lines rest

/-- A reading with what was delivered before it. -/
def Reading.after (delivered : List UInt8) (reading : Reading) : Reading :=
  ⟨delivered ++ reading.delivered, reading.heard, reading.ending⟩

theorem Owes.read (owes : Owes lines rest filter pipe delivered) (rooms : List Nat) :
    Faithful lines rest ((filter.read pipe rooms).after delivered) ∧
      (pipe.size + filter.held < (rooms.filter (0 < ·)).length →
        (filter.read pipe rooms).ending ≠ none) := by
  induction rooms generalizing filter pipe delivered with
  | nil =>
    obtain ⟨front, nothing⟩ := owes.delivered_prefix
    refine ⟨⟨?_, owes.heard_prefix, ?_, ?_, ?_⟩, fun few => absurd few (Nat.not_lt_zero _)⟩
    · change delivered ++ [] <+: passing rest
      rw [append_nil]
      exact front
    · intro tooMuch
      exact (append_nil delivered).trans (nothing tooMuch)
    · intro ended
      cases ended
    · intro why ended
      cases ended
  | cons room rooms inductionHypothesis =>
    have leaves := owes.poll room
    rw [PreBannerFilter.read]
    generalize filter.poll room pipe = polled at leaves ⊢
    have count : ((room :: rooms).filter (0 < ·)).length ≤ (rooms.filter (0 < ·)).length + 1 := by
      rw [filter_cons]
      split
      · exact Nat.le_refl _
      · exact Nat.le_succ _
    cases leaves with
    | pending owes' fewer =>
      obtain ⟨faithful, ends⟩ := inductionHypothesis owes'
      exact ⟨faithful, fun few => ends (by omega)⟩
    | failed tooMuch nothing kept =>
      refine ⟨⟨?_, kept, fun _ => ?_, fun ended => ?_, fun _ _ => tooMuch⟩, fun _ ended => ?_⟩
      · rw [Reading.after, nothing]
        exact nil_prefix
      · rw [Reading.after, nothing]
        rfl
      · cases ended
      · cases ended
    | @ready bytes after later owes' fewer spent ended =>
      by_cases last : bytes = [] ∧ 0 < room
      · obtain ⟨rfl, positive⟩ := last
        obtain ⟨within, whole, all⟩ := ended rfl positive
        have asIs : Reading.after delivered ⟨[], after.heard, some .eof⟩ =
            ⟨delivered, after.heard, some .eof⟩ := by
          rw [Reading.after, append_nil]
        simp only [positive, and_self, if_true]
        rw [asIs]
        refine ⟨⟨?_, ?_, fun tooMuch => (within tooMuch).elim, fun _ => ⟨within, whole, all⟩, ?_⟩, ?_⟩
        · rw [whole]
        · rw [all]
        · intro why failed
          cases failed
        · intro _ none
          cases none
      · obtain ⟨faithful, ends⟩ := inductionHypothesis owes'
        have asIs : Reading.after delivered ⟨bytes ++ (after.read later rooms).delivered,
            (after.read later rooms).heard, (after.read later rooms).ending⟩ =
              (after.read later rooms).after (delivered ++ bytes) := by
          rw [Reading.after, Reading.after, append_assoc]
        simp only [if_neg last]
        rw [asIs]
        refine ⟨faithful, fun few => ends ?_⟩
        by_cases some : bytes = []
        · -- a buffer without room does not count
          have zero : ¬0 < room := fun positive => last ⟨some, positive⟩
          have same : (room :: rooms).filter (0 < ·) = rooms.filter (0 < ·) := by
            rw [filter_cons_of_neg (by simpa using zero)]
          rw [same] at few
          omega
        · have smaller := spent some
          omega

theorem exists_splits (stream : List UInt8) : ∃ lines rest, Splits stream lines rest := by
  cases split : splitLine stream with
  | none =>
    have clean := splitLine_eq_none_iff.mp split
    refine ⟨[], stream, rfl, forall_mem_nil _, fun isBanner => ?_⟩
    exact (clean isBanner).elim
  | some found =>
    obtain ⟨line, behind⟩ := found
    have shorter := length_behind_lt split
    obtain ⟨clean, rfl⟩ := splitLine_eq_some_iff.mp split
    by_cases marked : sshMark <+: line
    · exact ⟨[], _, rfl, forall_mem_nil _,
        fun _ => (sshMark_prefix_iff behind).mpr marked⟩
    · obtain ⟨lines, rest, whole, talk, banner⟩ := exists_splits behind
      refine ⟨line :: lines, rest, ?_, ?_, banner⟩
      · rw [whole, map_cons, flatten_cons, append_assoc, append_assoc,
          singleton_append]
      · exact forall_mem_cons.mpr ⟨⟨clean, marked⟩, talk⟩
termination_by stream.length

/-- Every stream splits into talk and rest, and however the pipe cuts it and whatever buffers a
reader brings, the reader gets what passes of it and the voice what is said; enough polls reach the
end, which is an error exactly when the limits are exceeded. -/
theorem filter_transparent (stream : List UInt8) :
    (∃ lines rest, Splits stream lines rest) ∧
      ∀ lines rest, Splits stream lines rest → ∀ pipe : Pipe, pipe.flatten = stream →
        ∀ rooms : List Nat,
          Faithful lines rest (PreBannerFilter.new.read pipe rooms) ∧
            (pipe.size < (rooms.filter (0 < ·)).length →
              (PreBannerFilter.new.read pipe rooms).ending =
                  some .eof ∧ ¬TooMuch 0 lines rest ∨
                (∃ why, (PreBannerFilter.new.read pipe rooms).ending = some (.failed why)) ∧
                  TooMuch 0 lines rest) := by
  refine ⟨exists_splits stream, ?_⟩
  rintro lines rest splits pipe rfl rooms
  have owes : Owes lines rest PreBannerFilter.new pipe [] :=
    .scanning (Nat.zero_le _) splits Iff.rfl rfl
  obtain ⟨faithful, ends⟩ := owes.read rooms
  have asIs : (PreBannerFilter.new.read pipe rooms).after [] =
      PreBannerFilter.new.read pipe rooms := rfl
  rw [asIs] at faithful
  refine ⟨faithful, fun enough => ?_⟩
  have ended := ends enough
  cases ending : (PreBannerFilter.new.read pipe rooms).ending with
  | none => exact (ended ending).elim
  | some how =>
    cases how with
    | eof => exact .inl ⟨rfl, (faithful.eof ending).1⟩
    | failed why => exact .inr ⟨⟨why, rfl⟩, faithful.failed why ending⟩

end Oryxis.Ssh.ProxyBanner

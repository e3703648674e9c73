/-
This file is the watcher for ZMODEM headers in terminal output, and why it does not matter
how the output is cut.

A header starts a transfer; up to it the output is the terminal's, and from it on the
transfer's. The watcher sees one chunk at a time and holds back the end of a chunk that
may be the beginning of a header, from its second byte on: a header cut after its first
byte is missed, any other is found whole.
-/

import Mathlib.Data.List.Basic

namespace Oryxis.Zmodem

open List

/-! ### Headers -/

abbrev zpad : UInt8 := 42
abbrev zdle : UInt8 := 24
abbrev zhex : UInt8 := 66

/-- Which side of the transfer we take. -/
inductive Direction where
  | download
  | upload
  deriving DecidableEq, Repr

def trigPrefix : List UInt8 := [zpad, zpad, zdle, zhex, 48]

/-- The header of the other side's first frame. -/
def Direction.trig : Direction → List UInt8
  | .download => trigPrefix ++ [48]
  | .upload => trigPrefix ++ [49]

/-- The first header in a buffer. -/
def findTrigger : List UInt8 → Option (Nat × Direction)
  | [] => none
  | byte :: rest =>
    let window := (byte :: rest).take 6
    if window = Direction.trig .download then some (0, .download)
    else if window = Direction.trig .upload then some (0, .upload)
    else (findTrigger rest).map fun found => (found.1 + 1, found.2)

/-- How much of the end of a buffer may be the beginning of a header. A single byte is not held
back. -/
def trailingPrefixLen (buf : List UInt8) : Nat :=
  (([5, 4, 3, 2].filter (· ≤ buf.length)).find? fun held =>
    buf.drop (buf.length - held) = trigPrefix.take held).getD 0

/-! ### The watcher -/

structure Scan where
  clean : List UInt8
  detection : Option Direction
  wire : List UInt8
  deriving DecidableEq, Repr

structure ZmodemDetector where
  pending : List UInt8

namespace ZmodemDetector

def new : ZmodemDetector := ⟨[]⟩

def feed (detector : ZmodemDetector) (chunk : List UInt8) : ZmodemDetector × Scan :=
  let buf := detector.pending ++ chunk
  match findTrigger buf with
  | some (index, direction) => (⟨[]⟩, ⟨buf.take index, some direction, buf.drop index⟩)
  | none =>
    let split := buf.length - trailingPrefixLen buf
    (⟨buf.drop split⟩, ⟨buf.take split, none, []⟩)

def flush (detector : ZmodemDetector) : ZmodemDetector × List UInt8 := (⟨[]⟩, detector.pending)

/-- The chunks of a stream, up to the header and, where there is none, to the flush at the end. What
follows a header is all the transfer's. -/
def feedAll (detector : ZmodemDetector) : List (List UInt8) → Scan × List UInt8
  | [] => (⟨[], none, []⟩, detector.flush.2)
  | chunk :: chunks =>
    let fed := detector.feed chunk
    match fed.2.detection with
    | some direction =>
      (⟨fed.2.clean, some direction, fed.2.wire ++ chunks.flatten⟩, fed.1.flush.2)
    | none =>
      let later := fed.1.feedAll chunks
      (⟨fed.2.clean ++ later.1.clean, later.1.detection, later.1.wire⟩, later.2)

end ZmodemDetector

/-! ### What should hold -/

/-- A header of this direction stands here. -/
def TriggersAt (stream : List UInt8) (index : Nat) (direction : Direction) : Prop :=
  (stream.drop index).take 6 = direction.trig

instance (stream : List UInt8) (index : Nat) (direction : Direction) :
    Decidable (TriggersAt stream index direction) := inferInstanceAs (Decidable (_ = _))

/-- And it is the first of the stream. -/
def FirstTrigger (stream : List UInt8) (index : Nat) (direction : Direction) : Prop :=
  TriggersAt stream index direction ∧ ∀ earlier < index, ∀ other, ¬ TriggersAt stream earlier other

/-- A cut falls between the two pad bytes of the first header. -/
def CutsPads (chunks : List (List UInt8)) : Prop :=
  ∃ before after index direction, chunks = before ++ after ∧
    FirstTrigger chunks.flatten index direction ∧ before.flatten.length = index + 1

/-- The stream comes out as it went in, and unless a cut falls between the pad bytes of the first
header, the transfer starts there, as it does for the stream in one piece. -/
structure Transparent (chunks : List (List UInt8)) (fed : Scan × List UInt8) : Prop where
  whole : fed.1.clean ++ fed.1.wire ++ fed.2 = chunks.flatten
  detects : ¬ CutsPads chunks → ∀ index direction, FirstTrigger chunks.flatten index direction →
    fed = (⟨chunks.flatten.take index, some direction, chunks.flatten.drop index⟩, [])
  idle : (∀ index direction, ¬ FirstTrigger chunks.flatten index direction) →
    fed.1.detection = none ∧ fed.1.wire = []
  asOnePiece : ¬ CutsPads chunks →
    fed.1.detection = (ZmodemDetector.new.feedAll [chunks.flatten]).1.detection ∧
    fed.1.wire = (ZmodemDetector.new.feedAll [chunks.flatten]).1.wire

/-! ### Headers in a stream -/

theorem trig_length (direction : Direction) : direction.trig.length = 6 := by
  cases direction <;> rfl

variable {direction : Direction}

theorem trig_injective {other : Direction} (same : direction.trig = other.trig) :
    direction = other := by
  cases direction <;> cases other <;> first | rfl | cases same

/-- Both headers begin alike. -/
theorem trig_take (direction : Direction) {count : Nat} (short : count ≤ 5) :
    direction.trig.take count = trigPrefix.take count := by
  have begins : direction.trig = trigPrefix ++ direction.trig.drop 5 := by
    cases direction <;> rfl
  rw [begins, take_append_of_le_length short]

variable {index : Nat}

variable {stream : List UInt8}

theorem TriggersAt.within (triggers : TriggersAt stream index direction) :
    index + 6 ≤ stream.length := by
  have whole := congrArg List.length triggers
  rw [length_take, length_drop, trig_length] at whole
  omega

variable {first second : List UInt8}

/-- Of a longer stream, a window sees what stands in it. -/
theorem triggersAt_append (within : index + 6 ≤ first.length) :
    TriggersAt (first ++ second) index direction ↔ TriggersAt first index direction := by
  rw [TriggersAt, TriggersAt, drop_append_of_le_length (by omega),
    take_append_of_le_length (by rw [length_drop]; omega)]

theorem triggersAt_append_left :
    TriggersAt (first ++ second) (first.length + index) direction ↔
      TriggersAt second index direction := by
  rw [TriggersAt, TriggersAt, ← drop_drop, drop_left]

theorem triggersAt_cons {byte : UInt8} {rest : List UInt8} :
    TriggersAt (byte :: rest) (index + 1) direction ↔ TriggersAt rest index direction := Iff.rfl

variable {buf : List UInt8}

theorem findTrigger_eq_some (found : findTrigger buf = some (index, direction)) :
    FirstTrigger buf index direction := by
  induction buf generalizing index with
  | nil => cases found
  | cons byte rest inductionHypothesis =>
    rw [findTrigger] at found
    split at found
    case isTrue here =>
      cases found
      exact ⟨here, fun _ early => absurd early (Nat.not_lt_zero _)⟩
    case isFalse notDownload =>
      split at found
      case isTrue here =>
        cases found
        exact ⟨here, fun _ early => absurd early (Nat.not_lt_zero _)⟩
      case isFalse notUpload =>
        obtain ⟨⟨later, other⟩, isLater, same⟩ := Option.map_eq_some_iff.mp found
        cases same
        obtain ⟨triggers, first⟩ := inductionHypothesis isLater
        refine ⟨triggersAt_cons.mpr triggers, fun earlier early one => ?_⟩
        cases earlier with
        | zero =>
          cases one with
          | download => exact notDownload
          | upload => exact notUpload
        | succ earlier => exact first earlier (Nat.lt_of_succ_lt_succ early) one

theorem findTrigger_eq_none (found : findTrigger buf = none) (index : Nat) (direction : Direction) :
    ¬ TriggersAt buf index direction := by
  induction buf generalizing index with
  | nil =>
    intro triggers
    have within := triggers.within
    exact absurd within (by simp)
  | cons byte rest inductionHypothesis =>
    rw [findTrigger] at found
    split at found
    case isTrue => cases found
    case isFalse notDownload =>
      split at found
      case isTrue => cases found
      case isFalse notUpload =>
        cases index with
        | zero =>
          cases direction with
          | download => exact notDownload
          | upload => exact notUpload
        | succ index =>
          exact inductionHypothesis (Option.map_eq_none_iff.mp found) index

theorem FirstTrigger.unique {other : Nat} {another : Direction}
    (first : FirstTrigger stream index direction) (second : FirstTrigger stream other another) :
    index = other ∧ direction = another := by
  have same : index = other := by
    rcases Nat.lt_trichotomy index other with before | same | after
    · exact absurd first.1 (second.2 index before direction)
    · exact same
    · exact absurd second.1 (first.2 other after another)
  subst same
  exact ⟨rfl, trig_injective (first.1.symm.trans second.1)⟩

/-! ### What is held back -/

theorem trailingPrefixLen_le (buf : List UInt8) :
    trailingPrefixLen buf ≤ 5 ∧ trailingPrefixLen buf ≤ buf.length := by
  unfold trailingPrefixLen
  cases found : ([5, 4, 3, 2].filter (· ≤ buf.length)).find? fun held =>
      decide (buf.drop (buf.length - held) = trigPrefix.take held) with
  | none => exact ⟨Nat.zero_le _, Nat.zero_le _⟩
  | some held =>
    have member := mem_of_find?_eq_some found
    obtain ⟨listed, within⟩ := mem_filter.mp member
    refine ⟨?_, of_decide_eq_true within⟩
    have small : ∀ one ∈ [5, 4, 3, 2], one ≤ 5 := by decide
    exact small held listed

/-- The longest such end is held back. -/
theorem le_trailingPrefixLen {held : Nat} (many : 2 ≤ held) (short : held ≤ 5)
    (within : held ≤ buf.length) (begins : buf.drop (buf.length - held) = trigPrefix.take held) :
    held ≤ trailingPrefixLen buf := by
  have listed : held ∈ [5, 4, 3, 2] := by
    simp only [mem_cons, not_mem_nil, or_false]
    omega
  have member : held ∈ [5, 4, 3, 2].filter (· ≤ buf.length) :=
    mem_filter.mpr ⟨listed, decide_eq_true within⟩
  have longestFirst : ([5, 4, 3, 2].filter (· ≤ buf.length)).Pairwise (· > ·) := by
    have all : [5, 4, 3, 2].Pairwise (· > ·) := by decide
    exact all.filter _
  unfold trailingPrefixLen
  cases found : ([5, 4, 3, 2].filter (· ≤ buf.length)).find? fun held =>
      decide (buf.drop (buf.length - held) = trigPrefix.take held) with
  | none => exact absurd (decide_eq_true begins) (find?_eq_none.mp found held member)
  | some longest =>
    obtain ⟨_, before, after, split, others⟩ := find?_eq_some_iff_append.mp found
    rw [split] at member longestFirst
    rcases mem_append.mp member with earlier | later
    · have refused := others held earlier
      rw [decide_eq_true begins] at refused
      cases refused
    · rcases mem_cons.mp later with same | shorter
      · exact Nat.le_of_eq same
      · have below := (pairwise_cons.mp (pairwise_append.mp longestFirst).2.1).1 held
        exact Nat.le_of_lt (below shorter)

/-! ### A stream in chunks -/

namespace ZmodemDetector

/-- Nothing is lost. -/
theorem feedAll_whole (detector : ZmodemDetector) (chunks : List (List UInt8)) :
    (detector.feedAll chunks).1.clean ++ (detector.feedAll chunks).1.wire ++
      (detector.feedAll chunks).2 = detector.pending ++ chunks.flatten := by
  induction chunks generalizing detector with
  | nil => simp [feedAll, flush]
  | cons chunk chunks inductionHypothesis =>
    rw [feedAll]
    cases found : findTrigger (detector.pending ++ chunk) with
    | some header =>
      obtain ⟨index, direction⟩ := header
      simp only [feed, found, flush, append_nil]
      rw [← append_assoc, take_append_drop, append_assoc, flatten_cons]
    | none =>
      simp only [feed, found]
      rw [append_assoc, append_assoc, ← append_assoc _ _ (feedAll _ _).2,
        inductionHypothesis, ← append_assoc, take_append_drop, append_assoc,
        flatten_cons]

variable {index : Nat} {direction : Direction}

/-- Where the end of the buffer is the beginning of the first header, it is held back. -/
theorem held_of_firstTrigger {gone buf rest : List UInt8} (found : findTrigger buf = none)
    (first : FirstTrigger (gone ++ buf ++ rest) index direction) (ahead : gone.length ≤ index)
    (uncut : (gone ++ buf).length ≠ index + 1) :
    gone.length + (buf.length - trailingPrefixLen buf) ≤ index := by
  obtain ⟨offset, rfl⟩ := Nat.exists_eq_add_of_le ahead
  have triggers : TriggersAt (buf ++ rest) offset direction := by
    have inWhole := first.1
    rwa [append_assoc, triggersAt_append_left] at inWhole
  rw [length_append] at uncut
  have unfinished : buf.length < offset + 6 := by
    by_contra within
    exact findTrigger_eq_none found offset direction
      ((triggersAt_append (Nat.not_lt.mp within)).mp triggers)
  rcases Nat.lt_or_ge offset buf.length with before | after
  · obtain ⟨held, isHeld⟩ : ∃ held, held = buf.length - offset := ⟨_, rfl⟩
    have isOffset : offset = buf.length - held := by omega
    have begins : buf.drop (buf.length - held) = trigPrefix.take held := by
      have window := congrArg (List.take held) triggers
      rw [take_take, Nat.min_eq_left (by omega), trig_take direction (by omega),
        drop_append_of_le_length (Nat.le_of_lt before), take_append_of_le_length] at window
      · rwa [take_of_length_le, isOffset] at window
        rw [length_drop]
        omega
      · rw [length_drop]
        omega
    have kept := le_trailingPrefixLen (by omega) (by omega) (by omega) begins
    omega
  · omega

/-- A stream of which `gone` was let through, so far without a header, and of which the first
header is still to come. -/
theorem feedAll_detects (chunks : List (List UInt8)) (gone pending : List UInt8)
    (short : pending.length ≤ 5)
    (first : FirstTrigger (gone ++ pending ++ chunks.flatten) index direction)
    (ahead : gone.length ≤ index) (uncut : ∀ before after, chunks = before ++ after → before ≠ [] →
      (gone ++ pending ++ before.flatten).length ≠ index + 1) :
    feedAll ⟨pending⟩ chunks =
      (⟨((gone ++ pending ++ chunks.flatten).take index).drop gone.length, some direction,
        (gone ++ pending ++ chunks.flatten).drop index⟩, []) := by
  induction chunks generalizing gone pending with
  | nil =>
    have within := first.1.within
    simp only [flatten_nil, append_nil, length_append] at within
    omega
  | cons chunk chunks inductionHypothesis =>
    have whole : gone ++ pending ++ (chunk :: chunks).flatten =
        gone ++ (pending ++ chunk) ++ chunks.flatten := by
      rw [flatten_cons, append_assoc, append_assoc, append_assoc]
    rw [whole] at first ⊢
    obtain ⟨buf, isBuf⟩ : ∃ buf, buf = pending ++ chunk := ⟨_, rfl⟩
    have cut := uncut [chunk] chunks rfl (cons_ne_nil _ _)
    rw [flatten_cons, flatten_nil, append_nil, append_assoc, ← isBuf] at cut
    rw [feedAll]
    simp only [feed]
    rw [← isBuf] at first ⊢
    cases found : findTrigger buf with
    | some header =>
      obtain ⟨here, other⟩ := header
      have firstHere := findTrigger_eq_some found
      -- It is a header of the whole stream, and no earlier one is.
      have inWhole : FirstTrigger (gone ++ buf ++ chunks.flatten) (gone.length + here) other := by
        refine ⟨?_, fun earlier early one triggers => ?_⟩
        · rw [append_assoc, triggersAt_append_left]
          exact (triggersAt_append firstHere.1.within).mpr firstHere.1
        · rcases Nat.lt_or_ge earlier index with before | after
          · exact first.2 earlier before one triggers
          · obtain ⟨offset, rfl⟩ := Nat.exists_eq_add_of_le (Nat.le_trans ahead after)
            rw [append_assoc, triggersAt_append_left, triggersAt_append] at triggers
            · exact firstHere.2 offset (by omega) one triggers
            · have within := firstHere.1.within
              omega
      obtain ⟨rfl, rfl⟩ := first.unique inWhole
      simp only [flush]
      have clean : ((gone ++ buf ++ chunks.flatten).take (gone.length + here)).drop gone.length =
          buf.take here := by
        have within := firstHere.1.within
        rw [append_assoc, take_length_add_append, drop_left,
          take_append_of_le_length (by omega)]
      have wire : (gone ++ buf ++ chunks.flatten).drop (gone.length + here) =
          buf.drop here ++ chunks.flatten := by
        have within := firstHere.1.within
        rw [append_assoc, ← drop_drop, drop_left,
          drop_append_of_le_length (by omega)]
      rw [clean, wire]
    | none =>
      have held := held_of_firstTrigger found first ahead cut
      have limit := trailingPrefixLen_le buf
      obtain ⟨split, isSplit⟩ : ∃ split, split = buf.length - trailingPrefixLen buf := ⟨_, rfl⟩
      rw [← isSplit] at held
      have apart : gone ++ buf.take split ++ buf.drop split = gone ++ buf := by
        rw [append_assoc, take_append_drop]
      have goneLength : (gone ++ buf.take split).length = gone.length + split := by
        rw [length_append, length_take]
        omega
      have later := inductionHypothesis (gone ++ buf.take split) (buf.drop split)
        (by rw [length_drop]; omega) (by rwa [apart]) (by rwa [goneLength])
        fun before after isSplit nonempty => by
          have other := uncut (chunk :: before) after (by rw [isSplit]; rfl) (cons_ne_nil _ _)
          rwa [apart, isBuf, append_assoc, append_assoc, ← flatten_cons,
            ← append_assoc]
      simp only []
      rw [← isSplit, later, apart, goneLength]
      have clean : ((gone ++ buf ++ chunks.flatten).take index).drop gone.length = buf.take split ++
          ((gone ++ buf ++ chunks.flatten).take index).drop (gone.length + split) := by
        obtain ⟨offset, rfl⟩ := Nat.exists_eq_add_of_le held
        have begins : (gone ++ buf ++ chunks.flatten).take (gone.length + split + offset) =
            gone ++ buf.take split ++ (buf.drop split ++ chunks.flatten).take offset := by
          rw [← apart, append_assoc (gone ++ buf.take split), ← goneLength,
            take_length_add_append]
        rw [begins, ← goneLength, drop_left, append_assoc, drop_left]
      rw [clean]

/-- Where something is detected, it is a header of the stream. -/
theorem feedAll_sound (detector : ZmodemDetector) (chunks : List (List UInt8)) (gone : List UInt8)
    (none : ∀ index direction,
      ¬ TriggersAt (gone ++ detector.pending ++ chunks.flatten) index direction) :
    (detector.feedAll chunks).1.detection = Option.none ∧ (detector.feedAll chunks).1.wire = [] := by
  induction chunks generalizing detector gone with
  | nil => exact ⟨rfl, rfl⟩
  | cons chunk chunks inductionHypothesis =>
    obtain ⟨buf, isBuf⟩ : ∃ buf, buf = detector.pending ++ chunk := ⟨_, rfl⟩
    have whole : gone ++ detector.pending ++ (chunk :: chunks).flatten =
        gone ++ buf ++ chunks.flatten := by
      rw [flatten_cons, isBuf, append_assoc, append_assoc, append_assoc]
    rw [whole] at none
    rw [feedAll]
    simp only [feed]
    rw [← isBuf]
    cases found : findTrigger buf with
    | some header =>
      obtain ⟨here, other⟩ := header
      have triggers := (findTrigger_eq_some found).1
      refine absurd ?_ (none (gone.length + here) other)
      rw [append_assoc, triggersAt_append_left]
      exact (triggersAt_append triggers.within).mpr triggers
    | none =>
      refine inductionHypothesis _ (gone ++ buf.take (buf.length - trailingPrefixLen buf)) ?_
      simp only []
      rwa [append_assoc gone, take_append_drop]

/-- Without a first header there is none. -/
theorem not_triggersAt_of_first {stream : List UInt8}
    (none : ∀ index direction, ¬ FirstTrigger stream index direction) (index : Nat)
    (direction : Direction) : ¬ TriggersAt stream index direction := by
  induction index using Nat.strongRecOn generalizing direction with
  | ind index inductionHypothesis =>
    exact fun triggers => none index direction ⟨triggers, inductionHypothesis⟩

theorem feedAll_first {chunks : List (List UInt8)} (uncut : ¬ CutsPads chunks)
    (first : FirstTrigger chunks.flatten index direction) :
    new.feedAll chunks =
      (⟨chunks.flatten.take index, some direction, chunks.flatten.drop index⟩, []) :=
  feedAll_detects chunks [] [] (Nat.zero_le _) first (Nat.zero_le _)
    fun before after split _ cut => uncut ⟨before, after, index, direction, split, first, cut⟩

theorem not_cutsPads_onePiece (stream : List UInt8) : ¬ CutsPads [stream] := by
  rintro ⟨before, after, index, direction, split, first, cut⟩
  have within := first.1.within
  rw [flatten_singleton] at within
  cases before with
  | nil => cases cut
  | cons chunk before =>
    rw [cons_append, cons.injEq] at split
    obtain ⟨rfl, rest⟩ := split
    obtain ⟨rfl, _⟩ := append_eq_nil_iff.mp rest.symm
    rw [flatten_singleton] at cut
    omega

/-- However a stream is cut, it comes out whole, and the transfer starts at its first header unless
a cut falls between the pad bytes of that. -/
theorem feedAll_transparent (chunks : List (List UInt8)) :
    Transparent chunks (new.feedAll chunks) where
  whole := feedAll_whole new chunks
  detects uncut _ _ first := feedAll_first uncut first
  idle none := feedAll_sound new chunks [] (not_triggersAt_of_first none)
  asOnePiece uncut := by
    have onePiece : [chunks.flatten].flatten = chunks.flatten := flatten_singleton
    by_cases some : ∃ index direction, FirstTrigger chunks.flatten index direction
    · obtain ⟨index, direction, first⟩ := some
      rw [feedAll_first uncut first, feedAll_first (not_cutsPads_onePiece _)
        (by rw [onePiece]; exact first), onePiece]
      exact ⟨rfl, rfl⟩
    · have none : ∀ index direction, ¬ FirstTrigger chunks.flatten index direction :=
        fun index direction first => some ⟨index, direction, first⟩
      have inPieces := feedAll_sound new chunks [] (not_triggersAt_of_first none)
      have inOne := feedAll_sound new [chunks.flatten] []
        (by rw [onePiece]; exact not_triggersAt_of_first none)
      exact ⟨inPieces.1.trans inOne.1.symm, inPieces.2.trans inOne.2.symm⟩

/-- A lone pad byte at the end of a chunk goes through, and its header is missed. -/
example : (new.feedAll [[zpad], [zpad, zdle, zhex, 48, 48]]).1.detection = none := by decide

end ZmodemDetector

end Oryxis.Zmodem

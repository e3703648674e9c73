/-
This file is the two windowed copies of the SFTP client.

Both keep at most `streamWindow` requests in flight and write what comes in at its
own offset. A download splits the file into chunks first; a reply may be short, and
what it lacks is asked for again before any other chunk. An upload sends its chunks
one by one, and a write that was carried out keeps its place in the window until it
is answered. Beside the file both keep its contiguous prefix, which is all that is
left of it after an orderly failure.
-/

import Oryxis.Library.Machine
import Oryxis.Library.SparseFile

namespace Oryxis

open Library List

abbrev File := SparseFile UInt8

/-- The file that is copied. It does not change meanwhile. -/
structure SourceFile where
  size : Nat
  byte : Nat → UInt8

def streamChunk : Nat := 255 * 1024

def streamThreshold : Nat := 8 * 1024 * 1024

def streamWindow : Nat := 16

def resumeRewind : Nat := streamWindow * streamChunk

/-- How much of a partial file of a length can be continued, for a source of a size. -/
def resumeOffset (size length : Nat) : Nat :=
  if length = 0 ∨ length ≥ size then 0
  else if size < streamThreshold then length
  else length - resumeRewind

/-- What `resumeOffset` gives up of the length. -/
def resumeSlack (size : Nat) : Nat := if size < streamThreshold then 0 else resumeRewind

/-! ### The contiguous prefix -/

/-- The contiguous prefix, and the completed ranges that wait for it to reach them. -/
structure Progress where
  contiguous : Nat
  ahead : List (Nat × Nat)

def catchUp (contiguous : Nat) (ahead : List (Nat × Nat)) : Progress :=
  match reached : ahead.find? fun range => range.1 = contiguous with
  | none => ⟨contiguous, ahead⟩
  | some range => catchUp range.2 (ahead.eraseP fun other => other.1 = contiguous)
termination_by ahead.length
decreasing_by
  have member := mem_of_find?_eq_some reached
  have shorter := length_eraseP_of_mem member (find?_some reached)
  have := length_pos_of_mem member
  omega

/-- A completed range is inserted, and the prefix goes on as far as it can. -/
def Progress.complete (progress : Progress) (offset finish : Nat) : Progress :=
  catchUp progress.contiguous
    ((offset, finish) :: progress.ahead.filter fun other => other.1 ≠ offset)

/-! ### The windowed download -/

/-- The chunks from an offset on. -/
def chunks (size offset : Nat) : List Range :=
  if offset < size then
    ⟨offset, min streamChunk (size - offset)⟩ :: chunks size (offset + min streamChunk (size - offset))
  else []
termination_by size - offset
decreasing_by
  have : 0 < streamChunk := by decide
  omega

structure DownloadWindow where
  pending : List Range
  inflight : List Range
  file : File
  progress : Progress

/-- A reply to a request, with its number of bytes. -/
structure Reply where
  range : Range
  got : Nat

def DownloadWindow.outstanding (window : DownloadWindow) : List Range :=
  window.inflight ++ window.pending

def DownloadWindow.refill (window : DownloadWindow) : DownloadWindow :=
  let free := streamWindow - window.inflight.length
  { window with
    pending := window.pending.drop free
    inflight := window.inflight ++ window.pending.take free }

def startDownload (source : SourceFile) (offset : Nat) (file : File) : DownloadWindow :=
  DownloadWindow.refill
    { pending := chunks source.size offset
      inflight := []
      file := file
      progress := ⟨offset, []⟩ }

/-- What a short reply leaves to be asked for again. -/
def Reply.remainder (reply : Reply) : List Range :=
  if reply.got < reply.range.len then
    [⟨reply.range.offset + reply.got, reply.range.len - reply.got⟩]
  else []

def DownloadWindow.receive (source : SourceFile) (window : DownloadWindow) (reply : Reply) :
    Option DownloadWindow :=
  if reply.range ∈ window.inflight ∧ 0 < reply.got ∧ reply.got ≤ reply.range.len then
    some (DownloadWindow.refill
      { pending := reply.remainder ++ window.pending
        inflight := window.inflight.erase reply.range
        file := window.file.write source.byte reply.range.offset reply.got
        progress := window.progress.complete reply.range.offset (reply.range.offset + reply.got) })
  else none

def downloadWindow (source : SourceFile) : Machine DownloadWindow Reply where
  step := DownloadWindow.receive source

/-! ### The windowed upload -/

structure UploadWindow where
  next : Nat
  /-- Sent, and not yet carried out. -/
  inflight : List Range
  /-- Carried out, and not yet answered. -/
  landed : List Range
  file : File
  progress : Progress

inductive UploadEvent where
  | lands (range : Range)
  | answered (range : Range)

/-- The chunks that fit into the free places of the window, and where the next one starts. -/
def send (size : Nat) : Nat → Nat → List Range × Nat
  | 0, next => ([], next)
  | free + 1, next =>
    if next < size then
      let len := min streamChunk (size - next)
      let (others, after) := send size free (next + len)
      (⟨next, len⟩ :: others, after)
    else ([], next)

def UploadWindow.refill (size : Nat) (window : UploadWindow) : UploadWindow :=
  let (sent, after) :=
    send size (streamWindow - (window.inflight.length + window.landed.length)) window.next
  { window with
    next := after
    inflight := window.inflight ++ sent }

/-- What has not been carried out: what is in flight, and what was not sent. -/
def UploadWindow.outstanding (size : Nat) (window : UploadWindow) : List Range :=
  window.inflight ++ if window.next < size then [⟨window.next, size - window.next⟩] else []

def startUpload (source : SourceFile) (offset : Nat) (file : File) : UploadWindow :=
  UploadWindow.refill source.size
    { next := offset
      inflight := []
      landed := []
      file := file
      progress := ⟨offset, []⟩ }

def UploadWindow.step (source : SourceFile) (window : UploadWindow) :
    UploadEvent → Option UploadWindow
  | .lands range =>
    if range ∈ window.inflight then
      some { window with
        inflight := window.inflight.erase range
        landed := range :: window.landed
        file := window.file.write source.byte range.offset range.len }
    else none
  | .answered range =>
    if range ∈ window.landed then
      some (UploadWindow.refill source.size { window with
        landed := window.landed.erase range
        progress := window.progress.complete range.offset (range.offset + range.len) })
    else none

def uploadWindow (source : SourceFile) : Machine UploadWindow UploadEvent where
  step := UploadWindow.step source

/-- The copy is over: nothing is left to be sent or answered. -/
def UploadWindow.isOver (size : Nat) (window : UploadWindow) : Bool :=
  window.inflight.isEmpty && window.landed.isEmpty && decide (size ≤ window.next)

/-! ### What the bookkeeping is worth -/

variable {source : SourceFile} {file : File}

/-- From an offset on, what the prefix and the completed ranges cover is there. -/
structure Progress.Covers (progress : Progress) (start : Nat) (present : Nat → Prop) : Prop where
  inPrefix : ∀ index, start ≤ index → index < progress.contiguous → present index
  waiting : ∀ range ∈ progress.ahead, ∀ index, range.1 ≤ index → index < range.2 → present index

variable {start : Nat} {present : Nat → Prop}

theorem catchUp_covers {contiguous : Nat} {ahead : List (Nat × Nat)}
    (covers : Progress.Covers ⟨contiguous, ahead⟩ start present) :
    (catchUp contiguous ahead).Covers start present := by
  fun_induction catchUp contiguous ahead with
  | case1 contiguous ahead => exact covers
  | case2 contiguous ahead range reached inductionHypothesis =>
    have member := mem_of_find?_eq_some reached
    have isKey : range.1 = contiguous := by simpa using find?_some reached
    refine inductionHypothesis ⟨fun index above below => ?_, fun other later =>
      covers.waiting other (mem_of_mem_eraseP later)⟩
    by_cases inPrefix : index < contiguous
    · exact covers.inPrefix index above inPrefix
    · exact covers.waiting range member index (by omega) below

variable {progress : Progress} {offset : Nat}

theorem Progress.Covers.complete {finish : Nat} (covers : progress.Covers start present)
    (completed : ∀ index, offset ≤ index → index < finish → present index) :
    (progress.complete offset finish).Covers start present := by
  refine catchUp_covers ⟨covers.inPrefix, forall_mem_cons.mpr ⟨completed, ?_⟩⟩
  exact fun other member => covers.waiting other (mem_of_mem_filter member)

theorem Progress.Covers.mono {after : Nat → Prop} (covers : progress.Covers start present)
    (kept : ∀ index, present index → after index) :
    progress.Covers start after :=
  ⟨fun index above below => kept index (covers.inPrefix index above below),
    fun range member index above below => kept index (covers.waiting range member index above below)⟩

/-- The prefix and the completed ranges have been written. -/
structure Progress.Written (progress : Progress) (file : File) : Prop where
  prefixWritten : ∀ index < progress.contiguous, file.byte index ≠ none
  aheadWritten : ∀ range ∈ progress.ahead, ∀ index, range.1 ≤ index → index < range.2 →
    file.byte index ≠ none

theorem written_iff_covers :
    progress.Written file ↔ progress.Covers 0 fun index => file.byte index ≠ none :=
  ⟨fun written => ⟨fun index _ => written.prefixWritten index, written.aheadWritten⟩,
    fun covers => ⟨fun index => covers.inPrefix index (Nat.zero_le _), covers.waiting⟩⟩

theorem Progress.Written.complete {finish : Nat} (written : progress.Written file)
    (completed : ∀ index, offset ≤ index → index < finish → file.byte index ≠ none) :
    (progress.complete offset finish).Written file :=
  written_iff_covers.mpr ((written_iff_covers.mp written).complete completed)

variable {index : Nat}

theorem byte_write_of_present {count : Nat} (present : file.byte index ≠ none) :
    (file.write source.byte offset count).byte index ≠ none := by
  simp only [SparseFile.write]
  split
  · simp
  · exact present

theorem Progress.Written.write (written : progress.Written file) (offset count : Nat) :
    progress.Written (file.write source.byte offset count) :=
  written_iff_covers.mpr
    ((written_iff_covers.mp written).mono fun _ => byte_write_of_present)

variable {range : Range}

theorem byte_write_of_covers {count : Nat} (from' : range.offset ≤ index)
    (below : index < range.offset + count) :
    (file.write source.byte range.offset count).byte index ≠ none := by
  simp [SparseFile.write, from', below]

/-! ### What a window keeps -/

/-- A write up to there ends near all the others, or the file has its whole length by then. -/
def EndsNear (size : Nat) (file : File) (finish : Nat) (others : List Range) : Prop :=
  size ≤ max file.length finish ∨ ∀ other ∈ others, finish ≤ other.offset + resumeSlack size

instance (size : Nat) (file : File) (finish : Nat) (others : List Range) :
    Decidable (EndsNear size file finish others) :=
  inferInstanceAs (Decidable (_ ∨ _))

structure DownloadWindow.Sound (source : SourceFile) (window : DownloadWindow) : Prop where
  filling : Filling source.byte source.size (resumeSlack source.size) window.file window.outstanding
  written : window.progress.Written window.file

/-- A reply does not end further than the slack beyond another request that is still open. -/
def DownloadWindow.RepliesNear (source : SourceFile) (window : DownloadWindow) (reply : Reply) :
    Prop :=
  EndsNear source.size window.file (reply.range.offset + reply.got)
    (window.inflight.erase reply.range ++ window.pending)

instance (source : SourceFile) (window : DownloadWindow) (reply : Reply) :
    Decidable (window.RepliesNear source reply) :=
  inferInstanceAs (Decidable (EndsNear ..))

theorem outstanding_refill (window : DownloadWindow) :
    window.refill.outstanding = window.outstanding := by
  simp only [DownloadWindow.outstanding, DownloadWindow.refill]
  rw [append_assoc, take_append_drop]

theorem DownloadWindow.Sound.refill {window : DownloadWindow} (sound : window.Sound source) :
    window.refill.Sound source :=
  ⟨by rw [outstanding_refill]; exact sound.filling, sound.written⟩

/-- One reply. -/
theorem DownloadWindow.Sound.receive {window next : DownloadWindow} {reply : Reply}
    (sound : window.Sound source) (near : window.RepliesNear source reply)
    (received : window.receive source reply = some next) : next.Sound source := by
  unfold DownloadWindow.receive at received
  split at received
  · rename_i accepted
    cases received
    refine DownloadWindow.Sound.refill ⟨?_, ?_⟩
    · refine sound.filling.write ?_ ?_ ?_ ?_
      · intro other member
        by_cases same : other = reply.range
        · exact .inl same
        · refine .inr ?_
          rcases mem_append.mp member with isInflight | isPending
          · exact mem_append_left _ ((mem_erase_of_ne same).mpr isInflight)
          · exact mem_append_right _ (mem_append_right _ isPending)
      · intro index covers past
        have short : reply.got < reply.range.len := by
          have := covers.2
          omega
        refine ⟨⟨reply.range.offset + reply.got, reply.range.len - reply.got⟩, ?_, past, ?_⟩
        · refine mem_append_right _ (mem_append_left _ ?_)
          rw [Reply.remainder, if_pos short]
          exact mem_singleton_self _
        · have := covers.2
          show index < reply.range.offset + reply.got + (reply.range.len - reply.got)
          omega
      · intro other member
        rcases mem_append.mp member with isInflight | others
        · exact ⟨other, mem_append_left _ (mem_of_mem_erase isInflight), Nat.le_refl _⟩
        · rcases mem_append.mp others with isRemainder | isPending
          · refine ⟨reply.range, mem_append_left _ accepted.1, ?_⟩
            unfold Reply.remainder at isRemainder
            split at isRemainder
            · rw [mem_singleton.mp isRemainder]
              exact Nat.le_add_right ..
            · cases isRemainder
          · exact ⟨other, mem_append_right _ isPending, Nat.le_refl _⟩
      · refine near.imp_right fun close other member => ?_
        rcases mem_append.mp member with isInflight | others
        · exact close other (mem_append_left _ isInflight)
        · rcases mem_append.mp others with isRemainder | isPending
          · unfold Reply.remainder at isRemainder
            split at isRemainder
            · rw [mem_singleton.mp isRemainder]
              exact Nat.le_add_right ..
            · cases isRemainder
          · exact close other (mem_append_right _ isPending)
    · exact (sound.written.write _ _).complete fun _ => byte_write_of_covers
  · cases received

/-- Any number of replies, in any order. -/
theorem DownloadWindow.Sound.run {window final : DownloadWindow} {replies : List Reply}
    (sound : window.Sound source)
    (near : (downloadWindow source).Along (DownloadWindow.RepliesNear source) window replies)
    (ran : (downloadWindow source).run window replies = some final) : final.Sound source :=
  Machine.invariant (fun _ _ _ sound near received => sound.receive near received) sound near ran

variable {size : Nat}

theorem chunks_covers (from' : offset ≤ index) (below : index < size) :
    ∃ range ∈ chunks size offset, range.Covers index := by
  fun_induction chunks size offset with
  | case1 offset more inductionHypothesis =>
    by_cases first : index < offset + min streamChunk (size - offset)
    · exact ⟨_, mem_cons_self .., from', first⟩
    · obtain ⟨range, member, covers⟩ := inductionHypothesis (by omega)
      exact ⟨range, mem_cons_of_mem _ member, covers⟩
  | case2 offset done => omega

theorem offset_le_of_mem_chunks (member : range ∈ chunks size offset) : offset ≤ range.offset := by
  fun_induction chunks size offset with
  | case1 offset more inductionHypothesis =>
    rcases mem_cons.mp member with rfl | later
    · exact Nat.le_refl _
    · have := inductionHypothesis later
      omega
  | case2 offset done => cases member

/-- A file that can be continued from an offset: what is below has been written, and the file does
not reach further than the slack above. -/
structure Continuable (source : SourceFile) (offset : Nat) (file : File) : Prop where
  faithful : ∀ {index byte}, file.byte index = some byte → byte = source.byte index
  below : ∀ index < offset, file.byte index ≠ none
  near : file.length ≤ offset + resumeSlack source.size

theorem Continuable.startDownload {offset : Nat} (continuable : Continuable source offset file) :
    (startDownload source offset file).Sound source := by
  refine DownloadWindow.Sound.refill ⟨⟨continuable.faithful, fun index inside => ?_, ?_⟩, ?_⟩
  · by_cases below : index < offset
    · exact .inl (continuable.below index below)
    · exact .inr (chunks_covers (by omega) inside)
  · refine .inr fun range member => ?_
    have := offset_le_of_mem_chunks member
    have := continuable.near
    show file.length ≤ range.offset + resumeSlack source.size
    omega
  · exact ⟨continuable.below, fun range member => by cases member⟩

structure UploadWindow.Sound (source : SourceFile) (window : UploadWindow) : Prop where
  filling : Filling source.byte source.size (resumeSlack source.size) window.file
    (window.outstanding source.size)
  landed : ∀ range ∈ window.landed, ∀ index, range.Covers index → window.file.byte index ≠ none
  written : window.progress.Written window.file
  inside : ∀ range ∈ window.outstanding source.size, range.offset + range.len ≤ source.size
  short : window.file.length ≤ source.size

/-- A write that is carried out does not end further than the slack beyond another that was not. -/
def UploadWindow.LandsNear (source : SourceFile) (window : UploadWindow) : UploadEvent → Prop
  | .lands range =>
    EndsNear source.size window.file (range.offset + range.len)
      ({ window with inflight := window.inflight.erase range }.outstanding source.size)
  | .answered _ => True

instance (source : SourceFile) (window : UploadWindow) (event : UploadEvent) :
    Decidable (window.LandsNear source event) :=
  match event with
  | .lands _ => inferInstanceAs (Decidable (EndsNear ..))
  | .answered _ => isTrue trivial

theorem send_succ (size free next : Nat) : send size (free + 1) next =
    if next < size then
      (⟨next, min streamChunk (size - next)⟩ ::
        (send size free (next + min streamChunk (size - next))).1,
          (send size free (next + min streamChunk (size - next))).2)
    else ([], next) := rfl

theorem send_covers {free next : Nat} (from' : next ≤ index) (below : index < size) :
    (∃ range ∈ (send size free next).1, range.Covers index) ∨
      (send size free next).2 ≤ index := by
  induction free generalizing next with
  | zero => exact .inr from'
  | succ free inductionHypothesis =>
    rw [send_succ, if_pos (Nat.lt_of_le_of_lt from' below)]
    by_cases first : index < next + min streamChunk (size - next)
    · exact .inl ⟨_, mem_cons_self .., from', first⟩
    · rcases inductionHypothesis (Nat.le_of_not_lt first) with ⟨range, member, covers⟩ | past
      · exact .inl ⟨range, mem_cons_of_mem _ member, covers⟩
      · exact .inr past

theorem send_later (size free next : Nat) : next ≤ (send size free next).2 ∧
    ∀ range ∈ (send size free next).1,
      next < size ∧ next ≤ range.offset ∧ range.offset + range.len ≤ size := by
  induction free generalizing next with
  | zero => exact ⟨Nat.le_refl _, fun range member => by cases member⟩
  | succ free inductionHypothesis =>
    rw [send_succ]
    split
    · rename_i more
      obtain ⟨after, offsets⟩ := inductionHypothesis (next + min streamChunk (size - next))
      refine ⟨Nat.le_trans (Nat.le_add_right ..) after,
        forall_mem_cons.mpr ⟨⟨more, Nat.le_refl _, ?_⟩, fun range member => ⟨more, ?_⟩⟩⟩
      · show next + min streamChunk (size - next) ≤ size
        omega
      · obtain ⟨_, later, inside⟩ := offsets range member
        exact ⟨Nat.le_trans (Nat.le_add_right ..) later, inside⟩
    · exact ⟨Nat.le_refl _, fun range member => by cases member⟩

/-- What was not sent yet, as one range. -/
theorem mem_unsent_iff {next : Nat} :
    (range ∈ if next < size then [⟨next, size - next⟩] else []) ↔
      next < size ∧ range = ⟨next, size - next⟩ := by
  split
  · rename_i more
    rw [mem_singleton, and_iff_right more]
  · rename_i none
    simp [none]

variable {window : UploadWindow}

theorem UploadWindow.Sound.refill (sound : window.Sound source) :
    (window.refill source.size).Sound source := by
  obtain ⟨after, offsets⟩ := send_later source.size
    (streamWindow - (window.inflight.length + window.landed.length)) window.next
  refine ⟨sound.filling.regroup ?_ ?_, sound.landed, sound.written, ?_, sound.short⟩
  · rintro index ⟨range, member, covers⟩
    rcases mem_append.mp member with isInflight | isUnsent
    · exact ⟨range, mem_append_left _ (mem_append_left _ isInflight), covers⟩
    · obtain ⟨more, rfl⟩ := mem_unsent_iff.mp isUnsent
      have end' : index < window.next + (source.size - window.next) := covers.2
      have inside : index < source.size := by omega
      have isLeft : ∀ next, next ≤ index → index < next + (source.size - next) := by omega
      rcases send_covers covers.1 inside with ⟨sent, isSent, sentCovers⟩ | past
      · exact ⟨sent, mem_append_left _ (mem_append_right _ isSent), sentCovers⟩
      · exact ⟨_, mem_append_right _ (mem_unsent_iff.mpr
          ⟨Nat.lt_of_le_of_lt past inside, rfl⟩), past, isLeft _ past⟩
  · have unsent : ∀ offset, window.next ≤ offset → window.next < source.size →
        ∃ before ∈ window.outstanding source.size, before.offset ≤ offset := fun offset later more =>
      ⟨⟨window.next, source.size - window.next⟩,
        mem_append_right _ (mem_unsent_iff.mpr ⟨more, rfl⟩), later⟩
    intro other member
    rcases mem_append.mp member with kept | isUnsent
    · rcases mem_append.mp kept with isInflight | isSent
      · exact ⟨other, mem_append_left _ isInflight, Nat.le_refl _⟩
      · exact unsent other.offset (offsets other isSent).2.1 (offsets other isSent).1
    · obtain ⟨more, rfl⟩ := mem_unsent_iff.mp isUnsent
      exact unsent _ after (Nat.lt_of_le_of_lt after more)
  · intro other member
    rcases mem_append.mp member with kept | isUnsent
    · rcases mem_append.mp kept with isInflight | isSent
      · exact sound.inside other (mem_append_left _ isInflight)
      · exact (offsets other isSent).2.2
    · obtain ⟨more, rfl⟩ := mem_unsent_iff.mp isUnsent
      exact Nat.le_of_eq (Nat.add_sub_cancel' (Nat.le_of_lt more))

/-- One write that is carried out, or answered. -/
theorem UploadWindow.Sound.step {next : UploadWindow} {event : UploadEvent}
    (sound : window.Sound source) (near : window.LandsNear source event)
    (stepped : window.step source event = some next) : next.Sound source := by
  cases event with
  | lands range =>
    simp only [UploadWindow.step] at stepped
    split at stepped
    · rename_i sent
      cases stepped
      refine ⟨sound.filling.write ?_ ?_ ?_ near, ?_, sound.written.write _ _, ?_, ?_⟩
      · intro other member
        by_cases same : other = range
        · exact .inl same
        · refine .inr ?_
          rcases mem_append.mp member with isInflight | isUnsent
          · exact mem_append_left _ ((mem_erase_of_ne same).mpr isInflight)
          · exact mem_append_right _ isUnsent
      · intro index covers past
        exact absurd covers.2 (by omega)
      · intro other member
        rcases mem_append.mp member with isInflight | isUnsent
        · exact ⟨other, mem_append_left _ (mem_of_mem_erase isInflight), Nat.le_refl _⟩
        · exact ⟨other, mem_append_right _ isUnsent, Nat.le_refl _⟩
      · refine forall_mem_cons.mpr ⟨fun index covers => ?_, fun other member index covers => ?_⟩
        · exact byte_write_of_covers covers.1 covers.2
        · exact byte_write_of_present (sound.landed other member index covers)
      · intro other member
        rcases mem_append.mp member with isInflight | isUnsent
        · exact sound.inside other (mem_append_left _ (mem_of_mem_erase isInflight))
        · exact sound.inside other (mem_append_right _ isUnsent)
      · exact Nat.max_le.mpr ⟨sound.short, sound.inside range (mem_append_left _ sent)⟩
    · cases stepped
  | answered range =>
    simp only [UploadWindow.step] at stepped
    split at stepped
    · rename_i carriedOut
      cases stepped
      refine UploadWindow.Sound.refill
        ⟨sound.filling, fun other member => ?_, ?_, sound.inside, sound.short⟩
      · exact sound.landed other (mem_of_mem_erase member)
      · exact sound.written.complete fun index from' below =>
          sound.landed range carriedOut index ⟨from', below⟩
    · cases stepped

/-- Any number of writes, carried out and answered in any order. -/
theorem UploadWindow.Sound.run {final : UploadWindow} {events : List UploadEvent}
    (sound : window.Sound source)
    (near : (uploadWindow source).Along (UploadWindow.LandsNear source) window events)
    (ran : (uploadWindow source).run window events = some final) : final.Sound source :=
  Machine.invariant (fun _ _ _ sound near stepped => sound.step near stepped) sound near ran

theorem Continuable.startUpload {offset : Nat} (continuable : Continuable source offset file)
    (short : file.length ≤ source.size) : (startUpload source offset file).Sound source := by
  refine UploadWindow.Sound.refill
    ⟨⟨continuable.faithful, fun index inside => ?_, ?_⟩, (fun range member => by cases member), ?_,
      ?_, short⟩
  · by_cases below : index < offset
    · exact .inl (continuable.below index below)
    · have past : offset ≤ index := Nat.le_of_not_lt below
      refine .inr ⟨⟨offset, source.size - offset⟩,
        mem_unsent_iff.mpr ⟨Nat.lt_of_le_of_lt past inside, rfl⟩, past, ?_⟩
      show index < offset + (source.size - offset)
      omega
  · refine .inr fun range member => ?_
    obtain ⟨_, rfl⟩ := mem_unsent_iff.mp member
    exact continuable.near
  · exact ⟨continuable.below, fun range member => by cases member⟩
  · intro range member
    obtain ⟨more, rfl⟩ := mem_unsent_iff.mp member
    exact Nat.le_of_eq (Nat.add_sub_cancel' (Nat.le_of_lt more))

end Oryxis

/-
This file is the three windowed copies of the SFTP client as they are written: for any
chunk, any window and any stretch of a file, with every way their requests can be answered.
A download positions what it reads, a short reply first; an upload reads a chunk and sends
it; a relay has one task a chunk, which reads it to its end and sends it.

Well served, each of them comes to an end and has written each byte once. The length of a
request is cut to 32 bits, so with a chunk that does not fit them, and as much to copy, it
comes to requests of no bytes and never ends. An upload believes that a chunk was read
whole.
-/

import Mathlib.Algebra.Ring.Nat
import Mathlib.Order.Monotone.Basic
import Oryxis.Library.Tiling
import Oryxis.Sftp.Window

namespace Oryxis.Copies

open Library List

/-- What is copied, and how. -/
structure Copy where
  start : Nat
  size : Nat
  chunk : Nat
  window : Nat
  opName : String
  chunkPositive : 0 < chunk
  windowPositive : 0 < window

/-- How much is asked for at an offset, as a number of 32 bits. -/
def Copy.requestLen (copy : Copy) (offset : Nat) : Nat :=
  min copy.chunk (copy.size - offset) % 2 ^ 32

/-! ### The download -/

/-- The requests from an offset on. -/
def Copy.plan (copy : Copy) : Nat → Nat → Option (List Range)
  | 0, next => if next < copy.size then none else some []
  | fuel + 1, next =>
    if next < copy.size then
      (copy.plan fuel (next + copy.requestLen next)).map fun later =>
        ⟨next, copy.requestLen next⟩ :: later
    else some []

structure Downloading where
  pending : List Range
  inflight : List Range
  /-- The latest first. -/
  writes : List (Write UInt8)
  progress : Progress
  done : Nat
  result : Option (Except String Unit)

/-- A read that has ended, and what becomes of its bytes on this side. -/
structure ReadEnd where
  range : Range
  outcome : Except String (List UInt8)
  stored : Except String Unit

def Downloading.refill (copy : Copy) (state : Downloading) : Downloading :=
  let free := copy.window - state.inflight.length
  let inflight := state.inflight ++ state.pending.take free
  { state with
    pending := state.pending.drop free
    inflight := inflight
    -- Nothing to wait for ends the loop.
    result := if inflight.isEmpty then some (.ok ()) else none }

def Downloading.fail (state : Downloading) (error : String) : Downloading :=
  { state with result := some (.error error) }

def Downloading.accept (copy : Copy) (state : Downloading) (range : Range) (data : List UInt8) :
    Downloading :=
  let progress := state.progress.complete range.offset (range.offset + data.length)
  Downloading.refill copy { state with
    pending := Reply.remainder ⟨range, data.length⟩ ++ state.pending
    inflight := state.inflight.erase range
    writes := ⟨range.offset, data⟩ :: state.writes
    progress := progress
    done := progress.contiguous }

def Downloading.step (copy : Copy) (state : Downloading) (ended : ReadEnd) : Option Downloading :=
  if state.result = none ∧ ended.range ∈ state.inflight then
    match ended.outcome with
    | .error error => some (state.fail error)
    | .ok data =>
      if data.isEmpty then
        some (state.fail ("sftp " ++ copy.opName ++ " unexpected empty read at offset " ++
          toString ended.range.offset))
      else if ended.range.len < data.length then
        some (state.fail ("sftp " ++ copy.opName ++ " read at offset " ++
          toString ended.range.offset ++ " returned " ++ toString data.length ++ " bytes for a " ++
          toString ended.range.len ++ "-byte request"))
      else
        match ended.stored with
        | .error error => some (state.fail error)
        | .ok () => some (state.accept copy ended.range data)
  else none

def startDownload (copy : Copy) (fuel : Nat) : Option Downloading :=
  (copy.plan fuel copy.start).map fun requests =>
    Downloading.refill copy
      { pending := requests
        inflight := []
        writes := []
        progress := ⟨copy.start, []⟩
        done := copy.start
        result := none }

/-! ### The upload -/

/-- A chunk on its way. -/
structure SentChunk where
  range : Range
  data : List UInt8
  deriving DecidableEq

structure Uploading where
  next : Nat
  /-- Sent, and not yet carried out. -/
  inflight : List SentChunk
  /-- Carried out, and not yet answered. -/
  landed : List SentChunk
  writes : List (Write UInt8)
  progress : Progress
  done : Nat
  result : Option (Except String Unit)

inductive WriteEvent where
  | lands (chunk : SentChunk)
  | answered (chunk : SentChunk) (outcome : Except String Unit)

/-- What reading a piece of the local file gives. -/
abbrev LocalRead := Nat → Nat → Except String (List UInt8)

/-- What is read and sent into the free places of the window. -/
structure Sent where
  chunks : List SentChunk
  next : Nat
  error : Option String

def sendChunks (copy : Copy) (read : LocalRead) : Nat → Nat → Sent
  | 0, next => ⟨[], next, none⟩
  | free + 1, next =>
    if next < copy.size then
      match read next (copy.requestLen next) with
      | .error error => ⟨[], next, some error⟩
      | .ok data =>
        let later := sendChunks copy read free (next + copy.requestLen next)
        ⟨⟨⟨next, copy.requestLen next⟩, data⟩ :: later.chunks, later.next, later.error⟩
    else ⟨[], next, none⟩

def Uploading.refill (copy : Copy) (read : LocalRead) (state : Uploading) : Uploading :=
  let sent := sendChunks copy read
    (copy.window - (state.inflight.length + state.landed.length)) state.next
  let inflight := state.inflight ++ sent.chunks
  { state with
    next := sent.next
    inflight := inflight
    result :=
      match sent.error with
      | some error => some (.error error)
      | none =>
        if inflight.isEmpty ∧ state.landed.isEmpty ∧ copy.size ≤ sent.next then some (.ok ())
        else none }

/-- The server carries a write out. -/
def Uploading.land (state : Uploading) (chunk : SentChunk) : Uploading :=
  { state with
    inflight := state.inflight.erase chunk
    landed := chunk :: state.landed
    writes := ⟨chunk.range.offset, chunk.data⟩ :: state.writes }

def Uploading.answer (copy : Copy) (read : LocalRead) (state : Uploading) (chunk : SentChunk) :
    Uploading :=
  let progress :=
    state.progress.complete chunk.range.offset (chunk.range.offset + chunk.range.len)
  Uploading.refill copy read { state with
    landed := state.landed.erase chunk
    progress := progress
    done := progress.contiguous }

def Uploading.fail (state : Uploading) (error : String) : Uploading :=
  { state with result := some (.error error) }

def Uploading.step (copy : Copy) (read : LocalRead) (state : Uploading) :
    WriteEvent → Option Uploading
  -- Behind a failure too.
  | .lands chunk => if chunk ∈ state.inflight then some (state.land chunk) else none
  | .answered chunk (.ok ()) =>
    if state.result = none ∧ chunk ∈ state.landed then some (state.answer copy read chunk) else none
  | .answered chunk (.error error) =>
    if state.result = none ∧ (chunk ∈ state.landed ∨ chunk ∈ state.inflight) then
      some (state.fail error)
    else none

def startUpload (copy : Copy) (read : LocalRead) : Uploading :=
  Uploading.refill copy read
    { next := copy.start
      inflight := []
      landed := []
      writes := []
      progress := ⟨copy.start, []⟩
      done := copy.start
      result := none }

/-! ### The relay -/

/-- A task that reads a chunk to its end and sends it. -/
structure RelayTask where
  range : Range
  buffer : List UInt8
  deriving DecidableEq

structure Relaying where
  next : Nat
  /-- Reading, or with a write that is not yet carried out. -/
  tasks : List RelayTask
  /-- Carried out, and not yet answered. -/
  landed : List RelayTask
  writes : List (Write UInt8)
  result : Option (Except String Unit)

inductive RelayEvent where
  | read (task : RelayTask) (outcome : Except String (List UInt8))
  | lands (task : RelayTask)
  | answered (task : RelayTask) (outcome : Except String Unit)

/-- The tasks for the free places of the window, and where the next one starts. -/
def spawnTasks (copy : Copy) : Nat → Nat → List RelayTask × Nat
  | 0, next => ([], next)
  | free + 1, next =>
    if next < copy.size then
      let later := spawnTasks copy free (next + copy.requestLen next)
      (⟨⟨next, copy.requestLen next⟩, []⟩ :: later.1, later.2)
    else ([], next)

def Relaying.refill (copy : Copy) (state : Relaying) : Relaying :=
  let spawned := spawnTasks copy
    (copy.window - (state.tasks.length + state.landed.length)) state.next
  let tasks := state.tasks ++ spawned.1
  { state with
    next := spawned.2
    tasks := tasks
    result :=
      if tasks.isEmpty ∧ state.landed.isEmpty ∧ copy.size ≤ spawned.2 then some (.ok ())
      else none }

def Relaying.fail (state : Relaying) (error : String) : Relaying :=
  { state with result := some (.error error) }

/-- A task gets a part of its chunk. -/
def Relaying.extend (state : Relaying) (task : RelayTask) (part : List UInt8) : Relaying :=
  { state with
    tasks := { task with buffer := task.buffer ++ part } :: state.tasks.erase task }

/-- The server carries the write of a task out. -/
def Relaying.land (state : Relaying) (task : RelayTask) : Relaying :=
  { state with
    tasks := state.tasks.erase task
    landed := task :: state.landed
    writes := ⟨task.range.offset, task.buffer⟩ :: state.writes }

def Relaying.answer (copy : Copy) (state : Relaying) (task : RelayTask) : Relaying :=
  Relaying.refill copy { state with landed := state.landed.erase task }

def Relaying.step (copy : Copy) (state : Relaying) : RelayEvent → Option Relaying
  | .read task outcome =>
    let offset := task.range.offset + task.buffer.length
    let want := task.range.len - task.buffer.length
    if state.result = none ∧ task ∈ state.tasks ∧ task.buffer.length < task.range.len then
      match outcome with
      | .error error => some (state.fail error)
      | .ok part =>
        if part.isEmpty then
          some (state.fail ("sftp " ++ copy.opName ++ " relay: source shrank at offset " ++
            toString offset))
        else if want < part.length then
          some (state.fail ("sftp " ++ copy.opName ++ " relay read at offset " ++ toString offset ++
            " returned " ++ toString part.length ++ " bytes for a " ++ toString want ++
            "-byte request"))
        else some (state.extend task part)
    else none
  | .lands task =>
    if task ∈ state.tasks ∧ task.range.len ≤ task.buffer.length then some (state.land task)
    else none
  | .answered task (.ok ()) =>
    if state.result = none ∧ task ∈ state.landed then some (state.answer copy task) else none
  | .answered task (.error error) =>
    if state.result = none ∧ (task ∈ state.landed ∨ task ∈ state.tasks) then
      some (state.fail error)
    else none

/-- A relay copies the whole file. -/
def startRelay (copy : Copy) : Relaying :=
  Relaying.refill copy
    { next := 0
      tasks := []
      landed := []
      writes := []
      result := none }

/-! ### What should hold -/

/-- One of the copies: how it begins, and how its requests are served well. -/
structure Copying (State Event : Type) where
  machine : Machine State Event
  begins : State → Prop
  served : State → Event → Prop
  result : State → Option (Except String Unit)
  writes : State → List (Write UInt8)

/-- Well served, a copy ends with success, and has written each byte of the interval once. -/
structure Copying.Exact {State Event : Type} (copying : Copying State Event)
    (source : Nat → UInt8) (lo hi : Nat) : Prop where
  begins : ∃ begun, copying.begins begun
  ends : ∀ begun, copying.begins begun → copying.machine.EndsIn copying.served
    (fun state => copying.result state = some (.ok ())) begun
  once : ∀ begun events final, copying.begins begun →
    copying.machine.Along copying.served begun events →
    copying.machine.run begun events = some final → copying.result final = some (.ok ()) →
    FillsOnce source lo hi (copying.writes final)

/-- However it is served, what lies below the counter has been written. -/
def Copying.KeepsPrefix {State Event : Type} (copying : Copying State Event) (lo : Nat)
    (done : State → Nat) : Prop :=
  ∀ begun events final, copying.begins begun → copying.machine.run begun events = some final →
    ∀ index, lo ≤ index → index < done final → valuesAt (copying.writes final) index ≠ []

/-- Some bytes, no more than were asked for, and the ones that the source has there. -/
def ReadEnd.Good (source : Nat → UInt8) (ended : ReadEnd) : Prop :=
  ended.stored = .ok () ∧ ∃ data, ended.outcome = .ok data ∧ data ≠ [] ∧
    data.length ≤ ended.range.len ∧ Agrees source ended.range.offset data

def download (copy : Copy) (source : Nat → UInt8) : Copying Downloading ReadEnd where
  machine := ⟨Downloading.step copy⟩
  begins state := ∃ fuel, startDownload copy fuel = some state
  served _ ended := ended.Good source
  result := Downloading.result
  writes := Downloading.writes

/-- No write fails. -/
def WriteEvent.Good : WriteEvent → Prop
  | .lands _ => True
  | .answered _ outcome => outcome = .ok ()

def upload (copy : Copy) (read : LocalRead) : Copying Uploading WriteEvent where
  machine := ⟨Uploading.step copy read⟩
  begins state := state = startUpload copy read
  served _ event := event.Good
  result := Uploading.result
  writes := Uploading.writes

/-- A local file that gives some bytes where some are asked for, no more than that, and the ones
that the source has there. -/
structure LocalFile (source : Nat → UInt8) where
  read : Nat → Nat → List UInt8
  short : ∀ offset len, (read offset len).length ≤ len
  some : ∀ offset len, 0 < len → read offset len ≠ []
  agrees : ∀ offset len, Agrees source offset (read offset len)

def LocalFile.localRead {source : Nat → UInt8} (file : LocalFile source) : LocalRead :=
  fun offset len => .ok (file.read offset len)

/-- As for a download; a task that has read its chunk is answered without a failure. -/
def RelayEvent.Good (source : Nat → UInt8) : RelayEvent → Prop
  | .read task outcome => ∃ part, outcome = .ok part ∧ part ≠ [] ∧
      part.length ≤ task.range.len - task.buffer.length ∧
      Agrees source (task.range.offset + task.buffer.length) part
  | .lands _ => True
  | .answered _ outcome => outcome = .ok ()

def relay (copy : Copy) (source : Nat → UInt8) : Copying Relaying RelayEvent where
  machine := ⟨Relaying.step copy⟩
  begins state := state = startRelay copy
  served _ event := event.Good source
  result := Relaying.result
  writes := Relaying.writes

/-- Where the requests of an upload begin. -/
def Copy.nthOffset (copy : Copy) : Nat → Nat
  | 0 => copy.start
  | place + 1 => copy.nthOffset place + copy.requestLen (copy.nthOffset place)

/-- Whatever an upload reads, it reads whole. -/
def Copy.ReadsWhole (copy : Copy) (read : LocalRead) : Prop :=
  ∀ place data, copy.nthOffset place < copy.size →
    read (copy.nthOffset place) (copy.requestLen (copy.nthOffset place)) = .ok data →
    data.length = copy.requestLen (copy.nthOffset place)

/-- The chunk, or what is left from an offset on, is a number of 32 bits. -/
def Copy.FitsFrom (copy : Copy) (offset : Nat) : Prop :=
  copy.chunk < 2 ^ 32 ∨ copy.size - offset < 2 ^ 32

/-! ### The lengths of the requests -/

variable {copy : Copy} {source : Nat → UInt8} {offset fuel : Nat}

theorem requestLen_le (copy : Copy) (offset : Nat) :
    copy.requestLen offset ≤ copy.size - offset :=
  Nat.le_trans (Nat.mod_le ..) (Nat.min_le_right ..)

theorem requestLen_pos (fits : copy.FitsFrom offset) (more : offset < copy.size) :
    0 < copy.requestLen offset := by
  have small : min copy.chunk (copy.size - offset) < 2 ^ 32 := by
    rcases fits with fits | fits <;> omega
  have := copy.chunkPositive
  rw [Copy.requestLen, Nat.mod_eq_of_lt small]
  omega

theorem FitsFrom.later (fits : copy.FitsFrom offset) (more : Nat) :
    copy.FitsFrom (offset + more) :=
  fits.imp_right fun fits => by omega

/-- With a chunk that does not fit 32 bits, as much stays left as it would take. -/
theorem left_of_notFits (wide : 2 ^ 32 ≤ copy.chunk) (left : 2 ^ 32 ≤ copy.size - offset) :
    2 ^ 32 ≤ copy.size - (offset + copy.requestLen offset) := by
  have wraps : copy.requestLen offset ≤ min copy.chunk (copy.size - offset) - 2 ^ 32 := by
    rw [Copy.requestLen, Nat.mod_eq_sub_mod (Nat.le_min.mpr ⟨wide, left⟩)]
    exact Nat.mod_le ..
  have := Nat.min_le_right copy.chunk (copy.size - offset)
  omega

/-! ### The plan of a download -/

theorem coverings_plan {requests : List Range} (planned : copy.plan fuel offset = some requests)
    (index : Nat) : coverings requests index = within offset copy.size index := by
  induction fuel generalizing offset requests with
  | zero =>
    unfold Copy.plan at planned
    split at planned
    · cases planned
    · cases planned
      exact (if_neg fun inside => by omega).symm
  | succ fuel inductionHypothesis =>
    unfold Copy.plan at planned
    split at planned
    · rename_i more
      obtain ⟨later, isLater, rfl⟩ := Option.map_eq_some_iff.mp planned
      have fitting : offset + copy.requestLen offset ≤ copy.size := by
        have := requestLen_le copy offset
        omega
      rw [coverings_cons, inductionHypothesis isLater]
      exact within_add (Nat.le_add_right ..) fitting index
    · cases planned
      exact (if_neg fun inside => by omega).symm

theorem plan_positive {requests : List Range} (fits : copy.FitsFrom offset)
    (planned : copy.plan fuel offset = some requests) : ∀ range ∈ requests, 0 < range.len := by
  induction fuel generalizing offset requests with
  | zero =>
    unfold Copy.plan at planned
    split at planned <;> cases planned
    exact fun range member => by cases member
  | succ fuel inductionHypothesis =>
    unfold Copy.plan at planned
    split at planned
    · rename_i more
      obtain ⟨later, isLater, rfl⟩ := Option.map_eq_some_iff.mp planned
      exact forall_mem_cons.mpr
        ⟨requestLen_pos fits more, inductionHypothesis (FitsFrom.later fits _) isLater⟩
    · cases planned
      exact fun range member => by cases member

theorem exists_plan (fits : copy.FitsFrom offset) (enough : copy.size - offset ≤ fuel) :
    ∃ requests, copy.plan fuel offset = some requests := by
  induction fuel generalizing offset with
  | zero => exact ⟨[], if_neg (by omega)⟩
  | succ fuel inductionHypothesis =>
    by_cases more : offset < copy.size
    · have := requestLen_pos fits more
      obtain ⟨later, isLater⟩ := inductionHypothesis
        (FitsFrom.later fits (copy.requestLen offset)) (by omega)
      exact ⟨_, by rw [Copy.plan, if_pos more, isLater]; rfl⟩
    · exact ⟨[], if_neg more⟩

theorem plan_eq_none (wide : 2 ^ 32 ≤ copy.chunk) (left : 2 ^ 32 ≤ copy.size - offset) :
    copy.plan fuel offset = none := by
  induction fuel generalizing offset with
  | zero => exact if_pos (by omega)
  | succ fuel inductionHypothesis =>
    rw [Copy.plan, if_pos (by omega), inductionHypothesis (left_of_notFits wide left)]
    rfl

/-! ### A download, reply by reply -/

variable {state next : Downloading} {ended : ReadEnd} {range : Range} {data : List UInt8}

theorem outstanding_downloadRefill (copy : Copy) (state : Downloading) :
    (state.refill copy).inflight ++ (state.refill copy).pending =
      state.inflight ++ state.pending := by
  simp only [Downloading.refill]
  rw [append_assoc, take_append_drop]

/-- A reply fails the copy, or its bytes are written. -/
theorem Downloading.step_cases (stepped : state.step copy ended = some next) :
    (∃ error, next = state.fail error) ∨ ∃ data, next = state.accept copy ended.range data := by
  unfold Downloading.step at stepped
  split at stepped
  · split at stepped
    · exact .inl ⟨_, (Option.some.inj stepped).symm⟩
    · split at stepped
      · exact .inl ⟨_, (Option.some.inj stepped).symm⟩
      · split at stepped
        · exact .inl ⟨_, (Option.some.inj stepped).symm⟩
        · split at stepped
          · exact .inl ⟨_, (Option.some.inj stepped).symm⟩
          · exact .inr ⟨_, (Option.some.inj stepped).symm⟩
  · cases stepped

theorem Downloading.step_of_good (running : state.result = none)
    (asked : ended.range ∈ state.inflight) (stored : ended.stored = .ok ())
    (read : ended.outcome = .ok data) (some : data ≠ []) (short : data.length ≤ ended.range.len) :
    state.step copy ended = Option.some (state.accept copy ended.range data) := by
  have notEmpty : data.isEmpty = false := isEmpty_eq_false_iff.mpr some
  simp only [Downloading.step, running, asked, read, stored, notEmpty, Nat.not_lt.mpr short]
  rfl

theorem Downloading.step_good (good : ended.Good source)
    (stepped : state.step copy ended = some next) :
    ended.range ∈ state.inflight ∧ ∃ data, data ≠ [] ∧ data.length ≤ ended.range.len ∧
      Agrees source ended.range.offset data ∧ next = state.accept copy ended.range data := by
  obtain ⟨stored, data, read, isSome, short, agrees⟩ := good
  have taken : state.result = none ∧ ended.range ∈ state.inflight := by
    unfold Downloading.step at stepped
    split at stepped
    · assumption
    · cases stepped
  rw [Downloading.step_of_good taken.1 taken.2 stored read isSome short] at stepped
  exact ⟨taken.2, data, isSome, short, agrees, (Option.some.inj stepped).symm⟩

/-- The prefix that is counted has been written. -/
structure Downloading.Written (copy : Copy) (state : Downloading) : Prop where
  covers : state.progress.Covers copy.start fun index => valuesAt state.writes index ≠ []
  counted : state.done ≤ state.progress.contiguous

theorem Downloading.Written.step (written : state.Written copy)
    (stepped : state.step copy ended = some next) : next.Written copy := by
  rcases Downloading.step_cases stepped with ⟨error, rfl⟩ | ⟨data, rfl⟩
  · exact ⟨written.covers, written.counted⟩
  · refine ⟨Progress.Covers.complete ?_ ?_, Nat.le_refl _⟩
    · exact written.covers.mono fun _ => valuesAt_ne_nil_of_cons
    · exact fun index above below =>
        @valuesAt_ne_nil_of_covers _ ⟨ended.range.offset, data⟩ state.writes index above below

theorem begins_download {begun : Downloading} (begins : (download copy source).begins begun) :
    ∃ fuel requests, copy.plan fuel copy.start = some requests ∧
      begun = Downloading.refill copy ⟨requests, [], [], ⟨copy.start, []⟩, copy.start, none⟩ := by
  obtain ⟨fuel, begins⟩ := begins
  obtain ⟨requests, planned, rfl⟩ := Option.map_eq_some_iff.mp begins
  exact ⟨fuel, requests, planned, rfl⟩

theorem keepsPrefix_download (copy : Copy) (source : Nat → UInt8) :
    (download copy source).KeepsPrefix copy.start Downloading.done := by
  intro begun events final begins ran index above below
  obtain ⟨fuel, requests, planned, rfl⟩ := begins_download begins
  have starts : Downloading.Written copy
      (Downloading.refill copy ⟨requests, [], [], ⟨copy.start, []⟩, copy.start, none⟩) := by
    refine ⟨⟨fun index above below => ?_, fun range member => by cases member⟩, Nat.le_refl _⟩
    exact absurd below (Nat.not_lt.mpr above)
  have kept : ∀ state ended next, Downloading.Written copy state → True →
      (download copy source).machine.step state ended = some next → next.Written copy :=
    fun state ended next written _ stepped => written.step stepped
  have written := Machine.invariant kept starts (Machine.along_true ..) ran
  exact written.covers.inPrefix index above (Nat.lt_of_lt_of_le below written.counted)

/-- What is still asked for has some bytes, and with what has been written it tiles the file; the
copy is over when nothing is asked for. -/
structure Downloading.Sound (copy : Copy) (source : Nat → UInt8) (state : Downloading) : Prop where
  tiling : Tiling source copy.start copy.size state.writes (state.inflight ++ state.pending)
  positive : ∀ range ∈ state.inflight ++ state.pending, 0 < range.len
  settled : state.result = none ∧ state.inflight ≠ [] ∨
    state.result = some (.ok ()) ∧ state.inflight ++ state.pending = []

theorem Downloading.Sound.refill
    (tiling : Tiling source copy.start copy.size state.writes (state.inflight ++ state.pending))
    (positive : ∀ range ∈ state.inflight ++ state.pending, 0 < range.len) :
    (state.refill copy).Sound copy source := by
  refine ⟨by rw [outstanding_downloadRefill]; exact tiling,
    by rw [outstanding_downloadRefill]; exact positive, ?_⟩
  rw [outstanding_downloadRefill]
  by_cases waits : (state.refill copy).inflight = []
  · refine .inr ⟨if_pos (List.isEmpty_iff.mpr waits), ?_⟩
    obtain ⟨noInflight, noneTaken⟩ := append_eq_nil_iff.mp waits
    have free := copy.windowPositive
    rw [noInflight, length_nil, Nat.sub_zero, take_eq_nil_iff] at noneTaken
    rw [noInflight, nil_append]
    exact noneTaken.resolve_left (by omega)
  · exact .inl ⟨if_neg fun empty => waits (List.isEmpty_iff.mp empty), waits⟩

/-- The bytes that are still asked for. -/
def total (ranges : List Range) : Nat := (ranges.map Range.len).sum

theorem total_append (first second : List Range) :
    total (first ++ second) = total first + total second := by
  rw [total, map_append, sum_append, total, total]

theorem total_of_perm {first second : List Range} (perm : first.Perm second) :
    total first = total second :=
  Perm.sum_nat (perm.map _)

theorem total_cons (range : Range) (ranges : List Range) :
    total (range :: ranges) = range.len + total ranges := by
  rw [total, map_cons, sum_cons, total]

/-- What a reply leaves to be asked for again, as one range that may have no bytes. -/
theorem coverings_remainder (range : Range) (got index : Nat) :
    coverings (Reply.remainder ⟨range, got⟩) index =
      coverings [⟨range.offset + got, range.len - got⟩] index := by
  unfold Reply.remainder
  split
  · rfl
  · rename_i whole
    exact (Tiling.coverings_cons_of_empty (Nat.sub_eq_zero_of_le (Nat.not_lt.mp whole)) index).symm

theorem total_remainder (range : Range) (got : Nat) :
    total (Reply.remainder ⟨range, got⟩) = range.len - got := by
  unfold Reply.remainder
  split
  · rfl
  · rename_i whole
    exact (Nat.sub_eq_zero_of_le (Nat.not_lt.mp whole)).symm

theorem perm_outstanding {inflight pending : List Range} (asked : range ∈ inflight) :
    (inflight ++ pending).Perm (range :: (inflight.erase range ++ pending)) :=
  (perm_cons_erase asked).append_right pending

theorem Downloading.Sound.accept (sound : state.Sound copy source)
    (asked : range ∈ state.inflight) (short : data.length ≤ range.len)
    (agrees : Agrees source range.offset data) :
    (state.accept copy range data).Sound copy source := by
  have perm := @perm_outstanding range state.inflight state.pending asked
  have written := (sound.tiling.regroup fun index => (coverings_of_perm perm index).symm).write
    short agrees
  refine Downloading.Sound.refill (written.regroup fun index => ?_) ?_
  · rw [coverings_append, coverings_append, coverings_remainder, coverings_cons, coverings_nil,
      coverings_cons, coverings_append]
    dsimp only
    omega
  · intro other member
    rcases mem_append.mp member with isInflight | others
    · exact sound.positive other (mem_append_left _ (mem_of_mem_erase isInflight))
    · rcases mem_append.mp others with isRemainder | isPending
      · unfold Reply.remainder at isRemainder
        split at isRemainder
        · rename_i less
          cases mem_singleton.mp isRemainder
          exact Nat.sub_pos_of_lt less
        · cases isRemainder
      · exact sound.positive other (mem_append_right _ isPending)

theorem total_accept (asked : range ∈ state.inflight) (isSome : data ≠ [])
    (short : data.length ≤ range.len) :
    total ((state.accept copy range data).inflight ++ (state.accept copy range data).pending) <
      total (state.inflight ++ state.pending) := by
  have before := total_of_perm (@perm_outstanding range state.inflight state.pending asked)
  have got := length_pos_of_ne_nil isSome
  rw [total_cons, total_append (state.inflight.erase range)] at before
  rw [Downloading.accept, outstanding_downloadRefill, before]
  dsimp only
  rw [total_append, total_append, total_remainder]
  omega

theorem Downloading.Sound.goesOn (sound : state.Sound copy source) :
    state.result = some (.ok ()) ∨
      ∃ ended next, ReadEnd.Good source ended ∧ state.step copy ended = some next := by
  rcases sound.settled with ⟨running, waits⟩ | ⟨succeeded, _⟩
  · obtain ⟨range, others, isInflight⟩ := exists_cons_of_ne_nil waits
    have asked : range ∈ state.inflight := isInflight ▸ mem_cons_self ..
    have positive := sound.positive range (mem_append_left _ asked)
    exact .inr ⟨⟨range, .ok [source range.offset], .ok ()⟩, _,
      ⟨rfl, _, rfl, cons_ne_nil _ _, positive, agrees_single _ _⟩,
      Downloading.step_of_good running asked rfl rfl (cons_ne_nil _ _) positive⟩
  · exact .inl succeeded

theorem Downloading.Sound.step (sound : state.Sound copy source) (good : ended.Good source)
    (stepped : state.step copy ended = some next) :
    next.Sound copy source ∧
      total (next.inflight ++ next.pending) < total (state.inflight ++ state.pending) := by
  obtain ⟨asked, data, isSome, short, agrees, rfl⟩ := Downloading.step_good good stepped
  exact ⟨sound.accept asked short agrees, total_accept asked isSome short⟩

theorem exact_download (fits : copy.FitsFrom copy.start) (source : Nat → UInt8) :
    (download copy source).Exact source copy.start copy.size := by
  have starts : ∀ begun, (download copy source).begins begun → begun.Sound copy source := by
    intro begun begins
    obtain ⟨fuel, requests, planned, rfl⟩ := begins_download begins
    exact Downloading.Sound.refill (Tiling.start fun index => coverings_plan planned index)
      (plan_positive fits planned)
  have kept : ∀ state ended next, Downloading.Sound copy source state →
      (download copy source).served state ended →
      (download copy source).machine.step state ended = some next → next.Sound copy source ∧
        total (next.inflight ++ next.pending) < total (state.inflight ++ state.pending) :=
    fun state ended next sound good stepped => sound.step good stepped
  refine ⟨?_, fun begun begins => ?_, fun begun events final begins along ran succeeded => ?_⟩
  · obtain ⟨requests, planned⟩ := exists_plan fits (Nat.le_refl _)
    exact ⟨_, _, congrArg (Option.map _) planned⟩
  · exact Machine.endsIn_of_lowers _ kept (fun _ sound => sound.goesOn) (starts begun begins)
  · have sound := Machine.invariant
      (fun state ended next sound good stepped => (kept state ended next sound good stepped).1)
      (starts begun begins) along ran
    have nothing : final.inflight ++ final.pending = [] := by
      rcases sound.settled with ⟨running, _⟩ | ⟨_, nothing⟩
      · cases running.symm.trans succeeded
      · exact nothing
    have tiling := sound.tiling
    rw [nothing] at tiling
    exact tiling.fillsOnce

theorem exact_download_iff (copy : Copy) (source : Nat → UInt8) :
    (download copy source).Exact source copy.start copy.size ↔ copy.FitsFrom copy.start := by
  refine ⟨fun exact => ?_, fun fits => exact_download fits source⟩
  by_contra notFits
  obtain ⟨wide, left⟩ := not_or.mp notFits
  obtain ⟨begun, begins⟩ := exact.begins
  obtain ⟨fuel, requests, planned, _⟩ := begins_download begins
  rw [plan_eq_none (Nat.not_lt.mp wide) (Nat.not_lt.mp left)] at planned
  cases planned

/-! ### An upload, write by write -/

/-- A chunk that is read and sent where an upload comes along. -/
structure SentChunk.IsRead (copy : Copy) (read : LocalRead) (chunk : SentChunk) : Prop where
  asked : ∃ place, chunk.range.offset = copy.nthOffset place
  more : chunk.range.offset < copy.size
  isLen : chunk.range.len = copy.requestLen chunk.range.offset
  isData : read chunk.range.offset (copy.requestLen chunk.range.offset) = .ok chunk.data

theorem SentChunk.IsRead.whole {read : LocalRead} {chunk : SentChunk}
    (isRead : chunk.IsRead copy read) (reads : copy.ReadsWhole read) :
    chunk.data.length = chunk.range.len := by
  obtain ⟨place, isNth⟩ := isRead.asked
  have more := isRead.more
  have isData := isRead.isData
  rw [isNth] at more isData
  rw [isRead.isLen, isNth]
  exact reads place _ more isData

/-- What reading and sending chunks comes to. -/
structure Sent.Spec (copy : Copy) (read : LocalRead) (free next : Nat) (sent : Sent) : Prop where
  chunks : ∀ chunk ∈ sent.chunks, chunk.IsRead copy read
  asked : ∃ place, sent.next = copy.nthOffset place
  tiles : ∀ index, coverings (sent.chunks.map SentChunk.range) index +
    within sent.next copy.size index = within next copy.size index
  settled : 0 < free → sent.error = none → sent.chunks = [] → copy.size ≤ sent.next

theorem Sent.Spec.nothing {read : LocalRead} {free next : Nat} {error : Option String}
    (asked : ∃ place, next = copy.nthOffset place)
    (why : free = 0 ∨ error ≠ none ∨ copy.size ≤ next) :
    Sent.Spec copy read free next ⟨[], next, error⟩ := by
  refine ⟨fun chunk member => (by cases member), asked, fun index => Nat.zero_add _, ?_⟩
  intro some noError _
  rcases why with isZero | isError | past
  · omega
  · exact absurd noError isError
  · exact past

theorem sendChunks_spec {read : LocalRead} {free next : Nat}
    (asked : ∃ place, next = copy.nthOffset place) :
    (sendChunks copy read free next).Spec copy read free next := by
  induction free generalizing next with
  | zero => exact Sent.Spec.nothing asked (.inl rfl)
  | succ free inductionHypothesis =>
    unfold sendChunks
    split
    · rename_i more
      split
      · exact Sent.Spec.nothing asked (.inr (.inl (Option.some_ne_none _)))
      · rename_i data isData
        obtain ⟨place, isNth⟩ := asked
        have later := @inductionHypothesis (next + copy.requestLen next)
          ⟨place + 1, by rw [isNth]; rfl⟩
        have fitting : next + copy.requestLen next ≤ copy.size := by
          have := requestLen_le copy next
          omega
        refine ⟨forall_mem_cons.mpr ⟨⟨⟨place, isNth⟩, more, rfl, isData⟩, later.chunks⟩,
          later.asked, fun index => ?_, fun _ _ isEmpty => by cases isEmpty⟩
        have cut := within_add (Nat.le_add_right next (copy.requestLen next)) fitting index
        have others := later.tiles index
        rw [map_cons, coverings_cons]
        dsimp only
        omega
    · rename_i past
      exact Sent.Spec.nothing asked (.inr (.inr (Nat.not_lt.mp past)))

variable (file : LocalFile source)

/-- A local file never fails to be read. -/
theorem sendChunks_error (free next : Nat) :
    (sendChunks copy file.localRead free next).error = none := by
  induction free generalizing next with
  | zero => rfl
  | succ free inductionHypothesis =>
    unfold sendChunks
    split
    · exact inductionHypothesis _
    · rfl

/-- A chunk that is sent makes up for its two answers. -/
theorem sendChunks_lowers {read : LocalRead} {free next : Nat} (fits : copy.FitsFrom next) :
    2 * (sendChunks copy read free next).chunks.length +
      2 * (copy.size - (sendChunks copy read free next).next) ≤ 2 * (copy.size - next) := by
  induction free generalizing next with
  | zero => exact Nat.le_of_eq (Nat.zero_add _)
  | succ free inductionHypothesis =>
    unfold sendChunks
    split
    · rename_i more
      split
      · exact Nat.le_of_eq (Nat.zero_add _)
      · have less := requestLen_pos fits more
        have := @inductionHypothesis _ (FitsFrom.later fits (copy.requestLen next))
        dsimp only
        rw [length_cons]
        omega
    · exact Nat.le_of_eq (Nat.zero_add _)

variable {current after : Uploading} {read : LocalRead} {event : WriteEvent} {chunk : SentChunk}

/-- A write is carried out, or answered, or fails the copy. -/
theorem Uploading.step_cases (stepped : current.step copy read event = some after) :
    (∃ chunk ∈ current.inflight, after = current.land chunk) ∨
      (∃ chunk ∈ current.landed, after = current.answer copy read chunk) ∨
      (∃ error, after = current.fail error ∧ ¬ event.Good) := by
  unfold Uploading.step at stepped
  split at stepped
  · split at stepped
    · exact .inl ⟨_, ‹_›, (Option.some.inj stepped).symm⟩
    · cases stepped
  · split at stepped
    · rename_i taken
      exact .inr (.inl ⟨_, taken.2, (Option.some.inj stepped).symm⟩)
    · cases stepped
  · split at stepped
    · exact .inr (.inr ⟨_, (Option.some.inj stepped).symm, fun good => by cases good⟩)
    · cases stepped

/-- What is sent, and what is written, was read where the upload came along. -/
structure Uploading.Placed (copy : Copy) (read : LocalRead) (state : Uploading) : Prop where
  asked : ∃ place, state.next = copy.nthOffset place
  chunks : ∀ chunk ∈ state.inflight, chunk.IsRead copy read
  writes : ∀ write ∈ state.writes, ∃ chunk : SentChunk, chunk.IsRead copy read ∧
    write = ⟨chunk.range.offset, chunk.data⟩

theorem Uploading.Placed.refill (placed : current.Placed copy read) :
    (current.refill copy read).Placed copy read := by
  have sent := @sendChunks_spec copy read
    (copy.window - (current.inflight.length + current.landed.length)) current.next placed.asked
  exact ⟨sent.asked, forall_mem_append.mpr ⟨placed.chunks, sent.chunks⟩, placed.writes⟩

theorem Uploading.Placed.step (placed : current.Placed copy read)
    (stepped : current.step copy read event = some after) : after.Placed copy read := by
  rcases Uploading.step_cases stepped with ⟨chunk, sent, rfl⟩ | ⟨chunk, landed, rfl⟩ |
    ⟨error, rfl, _⟩
  · exact ⟨placed.asked, fun other member => placed.chunks other (mem_of_mem_erase member),
      forall_mem_cons.mpr ⟨⟨chunk, placed.chunks chunk sent, rfl⟩, placed.writes⟩⟩
  · exact Uploading.Placed.refill ⟨placed.asked, placed.chunks, placed.writes⟩
  · exact ⟨placed.asked, placed.chunks, placed.writes⟩

theorem placed_startUpload (copy : Copy) (read : LocalRead) :
    (startUpload copy read).Placed copy read :=
  Uploading.Placed.refill
    ⟨⟨0, rfl⟩, (fun chunk member => by cases member), fun write member => by cases member⟩

/-- What was carried out, and what is counted, has been written. -/
structure Uploading.Written (copy : Copy) (read : LocalRead) (state : Uploading) : Prop where
  placed : state.Placed copy read
  landed : ∀ chunk ∈ state.landed, ∀ index, chunk.range.Covers index →
    valuesAt state.writes index ≠ []
  covers : state.progress.Covers copy.start fun index => valuesAt state.writes index ≠ []
  counted : state.done ≤ state.progress.contiguous

theorem Uploading.Written.step (reads : copy.ReadsWhole read) (written : current.Written copy read)
    (stepped : current.step copy read event = some after) : after.Written copy read := by
  have placed := written.placed.step stepped
  rcases Uploading.step_cases stepped with ⟨chunk, sent, rfl⟩ | ⟨chunk, landed, rfl⟩ |
    ⟨error, rfl, _⟩
  · have whole := (written.placed.chunks chunk sent).whole reads
    refine ⟨placed, forall_mem_cons.mpr ⟨fun index covers => ?_, ?_⟩,
      written.covers.mono fun _ => valuesAt_ne_nil_of_cons, written.counted⟩
    · have below : index < chunk.range.offset + chunk.data.length := by
        have := covers.2
        omega
      exact @valuesAt_ne_nil_of_covers _ ⟨chunk.range.offset, chunk.data⟩ _ index covers.1 below
    · exact fun other member index covers =>
        valuesAt_ne_nil_of_cons (written.landed other member index covers)
  · refine ⟨placed, fun other member => written.landed other (mem_of_mem_erase member),
      written.covers.complete fun index above below => ?_, Nat.le_refl _⟩
    exact written.landed chunk landed index ⟨above, below⟩
  · exact ⟨placed, written.landed, written.covers, written.counted⟩

theorem keepsPrefix_upload (reads : copy.ReadsWhole read) :
    (upload copy read).KeepsPrefix copy.start Uploading.done := by
  rintro begun events final rfl ran index above below
  have starts : (startUpload copy read).Written copy read := by
    refine ⟨placed_startUpload copy read, fun chunk member => (by cases member), ?_, Nat.le_refl _⟩
    refine ⟨fun index above below => ?_, fun range member => by cases member⟩
    exact absurd below (Nat.not_lt.mpr above)
  have kept : ∀ state event next, Uploading.Written copy read state → True →
      (upload copy read).machine.step state event = some next → next.Written copy read :=
    fun state event next written _ stepped => written.step reads stepped
  have written := Machine.invariant kept starts (Machine.along_true ..) ran
  exact written.covers.inPrefix index above (Nat.lt_of_lt_of_le below written.counted)

/-- Something is waited for, or the copy is over. -/
def Uploading.Settled (copy : Copy) (state : Uploading) : Prop :=
  state.result = none ∧ (state.inflight ≠ [] ∨ state.landed ≠ []) ∨
    state.result = some (.ok ()) ∧ state.inflight = [] ∧ state.landed = [] ∧ copy.size ≤ state.next

theorem settled_uploadRefill (asked : ∃ place, current.next = copy.nthOffset place) :
    (current.refill copy file.localRead).Settled copy := by
  have spec := @sendChunks_spec copy file.localRead
    (copy.window - (current.inflight.length + current.landed.length)) current.next asked
  have noError := @sendChunks_error copy source file
    (copy.window - (current.inflight.length + current.landed.length)) current.next
  unfold Uploading.Settled Uploading.refill
  dsimp only
  rw [noError]
  dsimp only
  split
  · rename_i finished
    exact .inr ⟨rfl, List.isEmpty_iff.mp finished.1, List.isEmpty_iff.mp finished.2.1,
      finished.2.2⟩
  · rename_i unfinished
    refine .inl ⟨rfl, ?_⟩
    by_contra nothing
    obtain ⟨noInflight, noLanded⟩ := not_or.mp nothing
    have isEmpty := not_not.mp noInflight
    obtain ⟨wasEmpty, noneSent⟩ := append_eq_nil_iff.mp isEmpty
    have free := copy.windowPositive
    refine unfinished ⟨List.isEmpty_iff.mpr isEmpty, List.isEmpty_iff.mpr (not_not.mp noLanded), ?_⟩
    refine spec.settled ?_ noError noneSent
    rw [wasEmpty, not_not.mp noLanded]
    exact free

theorem Uploading.Settled.goesOn (settled : current.Settled copy) :
    current.result = some (.ok ()) ∨
      ∃ event next, WriteEvent.Good event ∧ current.step copy read event = some next := by
  rcases settled with ⟨running, waits⟩ | ⟨succeeded, _⟩
  · refine .inr ?_
    rcases waits with inflight | landed
    · obtain ⟨chunk, others, isInflight⟩ := exists_cons_of_ne_nil inflight
      have sent : chunk ∈ current.inflight := isInflight ▸ mem_cons_self ..
      exact ⟨.lands chunk, _, trivial, if_pos sent⟩
    · obtain ⟨chunk, others, isLanded⟩ := exists_cons_of_ne_nil landed
      have carriedOut : chunk ∈ current.landed := isLanded ▸ mem_cons_self ..
      exact ⟨.answered chunk (.ok ()), _, rfl, if_pos ⟨running, carriedOut⟩⟩
  · exact .inl succeeded

theorem fitsFrom_nthOffset (fits : copy.FitsFrom copy.start) (place : Nat) :
    copy.FitsFrom (copy.nthOffset place) := by
  induction place with
  | zero => exact fits
  | succ place inductionHypothesis => exact FitsFrom.later inductionHypothesis _

/-- What is in flight and what was not sent are left to be written. -/
structure Uploading.Sound (copy : Copy) (read : LocalRead) (source : Nat → UInt8)
    (state : Uploading) : Prop where
  placed : state.Placed copy read
  tiling : Tiling source copy.start copy.size state.writes
    (state.inflight.map SentChunk.range ++ [⟨state.next, copy.size - state.next⟩])
  settled : state.Settled copy

theorem coverings_unsent (size next index : Nat) :
    coverings [⟨next, size - next⟩] index = within next size index := by
  rw [coverings_cons, coverings_nil, Nat.add_zero]
  dsimp only
  by_cases more : next ≤ size
  · rw [Nat.add_sub_cancel' more]
  · rw [Nat.sub_eq_zero_of_le (Nat.le_of_not_le more), Nat.add_zero, within_self]
    exact (if_neg fun inside => by omega).symm

theorem Uploading.Sound.refill (placed : current.Placed copy file.localRead)
    (tiling : Tiling source copy.start copy.size current.writes
      (current.inflight.map SentChunk.range ++ [⟨current.next, copy.size - current.next⟩])) :
    (current.refill copy file.localRead).Sound copy file.localRead source := by
  refine ⟨placed.refill, tiling.regroup fun index => ?_, settled_uploadRefill file placed.asked⟩
  have spec := @sendChunks_spec copy file.localRead
    (copy.window - (current.inflight.length + current.landed.length)) current.next placed.asked
  have same := spec.tiles index
  rw [coverings_append, coverings_append, coverings_unsent, coverings_unsent]
  dsimp only [Uploading.refill]
  rw [map_append, coverings_append]
  omega

/-- What is still to be done for an upload: two answers for each chunk. -/
def Uploading.remaining (copy : Copy) (state : Uploading) : Nat :=
  2 * state.inflight.length + state.landed.length + 2 * (copy.size - state.next)

theorem remaining_uploadRefill (fits : copy.FitsFrom current.next) :
    (current.refill copy read).remaining copy ≤ current.remaining copy := by
  have lowers := @sendChunks_lowers copy read
    (copy.window - (current.inflight.length + current.landed.length)) current.next fits
  simp only [Uploading.remaining, Uploading.refill]
  rw [length_append]
  omega

theorem Uploading.Sound.step (fits : copy.FitsFrom copy.start) (file : LocalFile source)
    (reads : copy.ReadsWhole file.localRead) (sound : current.Sound copy file.localRead source)
    (good : event.Good) (stepped : current.step copy file.localRead event = some after) :
    after.Sound copy file.localRead source ∧
      after.remaining copy < current.remaining copy := by
  have placed := sound.placed.step stepped
  rcases Uploading.step_cases stepped with ⟨chunk, sent, rfl⟩ | ⟨chunk, landed, rfl⟩ |
    ⟨error, rfl, bad⟩
  · have isRead := sound.placed.chunks chunk sent
    have count := length_erase_of_mem sent
    have some := length_pos_of_mem sent
    have perm := ((perm_cons_erase sent).map SentChunk.range).append_right
      [⟨current.next, copy.size - current.next⟩]
    have agrees : Agrees source chunk.range.offset chunk.data := by
      rw [← Except.ok.inj isRead.isData]
      exact file.agrees _ _
    refine ⟨⟨placed, ?_, ?_⟩, ?_⟩
    · exact (sound.tiling.regroup fun index => (coverings_of_perm perm index).symm).writeWhole
        (isRead.whole reads) agrees
    · rcases sound.settled with ⟨running, _⟩ | ⟨_, isEmpty, _⟩
      · exact .inl ⟨running, .inr (cons_ne_nil _ _)⟩
      · rw [isEmpty] at sent
        cases sent
    · simp only [Uploading.remaining, Uploading.land, length_cons]
      omega
  · have count := length_erase_of_mem landed
    have some := length_pos_of_mem landed
    obtain ⟨place, isNth⟩ := sound.placed.asked
    refine ⟨Uploading.Sound.refill file ⟨sound.placed.asked, sound.placed.chunks,
      sound.placed.writes⟩ sound.tiling, ?_⟩
    refine Nat.lt_of_le_of_lt (remaining_uploadRefill ?_) ?_
    · rw [isNth]
      exact fitsFrom_nthOffset fits place
    · simp only [Uploading.remaining]
      omega
  · exact absurd good bad

theorem exact_upload (fits : copy.FitsFrom copy.start) (file : LocalFile source)
    (reads : copy.ReadsWhole file.localRead) :
    (upload copy file.localRead).Exact source copy.start copy.size := by
  have starts : (startUpload copy file.localRead).Sound copy file.localRead source :=
    Uploading.Sound.refill file ⟨⟨0, rfl⟩, (fun chunk member => by cases member),
      fun write member => by cases member⟩ (Tiling.start fun index => coverings_unsent _ _ index)
  have kept : ∀ state event next, Uploading.Sound copy file.localRead source state →
      WriteEvent.Good event → (upload copy file.localRead).machine.step state event = some next →
      next.Sound copy file.localRead source ∧ next.remaining copy < state.remaining copy :=
    fun state event next sound good stepped => sound.step fits file reads good stepped
  refine ⟨⟨_, rfl⟩, ?_, ?_⟩
  · rintro begun rfl
    exact Machine.endsIn_of_lowers _ kept (fun _ sound => sound.settled.goesOn) starts
  · rintro begun events final rfl along ran succeeded
    have sound := Machine.invariant
      (fun state event next sound good stepped => (kept state event next sound good stepped).1)
      starts along ran
    rcases sound.settled with ⟨running, _⟩ | ⟨_, noInflight, _, past⟩
    · cases running.symm.trans succeeded
    · refine (sound.tiling.regroup fun index => ?_).fillsOnce
      rw [noInflight, map_nil, nil_append]
      exact (Tiling.coverings_cons_of_empty (Nat.sub_eq_zero_of_le past) index).symm

/-! ### Where an upload goes wrong -/

theorem sendChunks_left {free next : Nat} (wide : 2 ^ 32 ≤ copy.chunk)
    (left : 2 ^ 32 ≤ copy.size - next) :
    2 ^ 32 ≤ copy.size - (sendChunks copy read free next).next := by
  induction free generalizing next with
  | zero => exact left
  | succ free inductionHypothesis =>
    unfold sendChunks
    split
    · split
      · exact left
      · exact inductionHypothesis (left_of_notFits wide left)
    · exact left

/-- An upload that goes on for ever. -/
structure Uploading.Endless (copy : Copy) (read : LocalRead) (state : Uploading) : Prop where
  placed : state.Placed copy read
  settled : state.Settled copy
  left : 2 ^ 32 ≤ copy.size - state.next

theorem Uploading.Endless.step (wide : 2 ^ 32 ≤ copy.chunk) (file : LocalFile source)
    (endless : current.Endless copy file.localRead) (good : event.Good)
    (stepped : current.step copy file.localRead event = some after) :
    after.Endless copy file.localRead := by
  have placed := endless.placed.step stepped
  rcases Uploading.step_cases stepped with ⟨chunk, sent, rfl⟩ | ⟨chunk, landed, rfl⟩ |
    ⟨error, rfl, bad⟩
  · refine ⟨placed, ?_, endless.left⟩
    rcases endless.settled with ⟨running, _⟩ | ⟨_, isEmpty, _⟩
    · exact .inl ⟨running, .inr (cons_ne_nil _ _)⟩
    · rw [isEmpty] at sent
      cases sent
  · exact ⟨placed, settled_uploadRefill file endless.placed.asked,
      sendChunks_left wide endless.left⟩
  · exact absurd good bad

theorem not_exact_of_more {State Event : Type} {copying : Copying State Event} {lo hi : Nat}
    {holds : State → Prop} {begun : State} (begins : copying.begins begun) (starts : holds begun)
    (kept : ∀ state event next, holds state → copying.served state event →
      copying.machine.step state event = some next → holds next)
    (more : ∀ state, holds state → ∃ event next,
      copying.served state event ∧ copying.machine.step state event = some next) :
    ¬ copying.Exact source lo hi := by
  intro exact
  obtain ⟨bound, bounded⟩ := (exact.ends begun begins).bounded
  obtain ⟨events, final, isLength, along, ran⟩ := Machine.exists_run_of_length
    (fun events final along ran => more final (Machine.invariant kept starts along ran)) (bound + 1)
  have := bounded events final along ran
  omega

theorem not_exact_upload_of_notFits (wide : 2 ^ 32 ≤ copy.chunk)
    (left : 2 ^ 32 ≤ copy.size - copy.start) (file : LocalFile source) :
    ¬ (upload copy file.localRead).Exact source copy.start copy.size := by
  have starts : (startUpload copy file.localRead).Endless copy file.localRead :=
    ⟨placed_startUpload copy _, settled_uploadRefill file ⟨0, rfl⟩, sendChunks_left wide left⟩
  have begins : (upload copy file.localRead).begins (startUpload copy file.localRead) := rfl
  refine not_exact_of_more begins starts ?_ ?_
  · exact fun state event next endless good stepped => endless.step wide file good stepped
  · intro state endless
    refine endless.settled.goesOn.resolve_left fun succeeded => ?_
    rcases endless.settled with ⟨running, _⟩ | ⟨_, _, _, past⟩
    · cases running.symm.trans succeeded
    · have := endless.left
      omega

theorem monotone_nthOffset (copy : Copy) : Monotone copy.nthOffset :=
  monotone_nat_of_le_succ fun _ => Nat.le_add_right ..

/-- A byte that was not read is not written. -/
theorem readsWhole_of_exact (exact : (upload copy file.localRead).Exact source copy.start copy.size) :
    copy.ReadsWhole file.localRead := by
  intro place data more isData
  have isRead := Except.ok.inj isData
  have short := file.short (copy.nthOffset place) (copy.requestLen (copy.nthOffset place))
  rw [isRead] at short
  by_contra notWhole
  obtain ⟨events, final, along, ran, succeeded⟩ :=
    (exact.ends (startUpload copy file.localRead) rfl).exists_goal
  have fills := exact.once _ events final rfl along ran succeeded
    (copy.nthOffset place + data.length)
  have above : copy.start ≤ copy.nthOffset place := monotone_nthOffset copy (Nat.zero_le place)
  have fitting := requestLen_le copy (copy.nthOffset place)
  rw [if_pos (by omega)] at fills
  have kept : ∀ state event next, Uploading.Placed copy file.localRead state →
      WriteEvent.Good event → (upload copy file.localRead).machine.step state event = some next →
      next.Placed copy file.localRead :=
    fun state event next placed _ stepped => placed.step stepped
  have placed := Machine.invariant kept (placed_startUpload copy file.localRead) along ran
  obtain ⟨write, member, isByte⟩ := mem_filterMap.mp (fills ▸ mem_singleton_self _)
  obtain ⟨chunk, isChunk, rfl⟩ := placed.writes write member
  obtain ⟨offsetBelow, offsetAbove, _⟩ := Write.at_eq_some isByte
  dsimp only at offsetBelow offsetAbove
  obtain ⟨other, isOther⟩ := isChunk.asked
  have isOtherData := Except.ok.inj isChunk.isData
  have otherShort := file.short chunk.range.offset (copy.requestLen chunk.range.offset)
  rw [isOtherData] at otherShort
  rcases Nat.lt_trichotomy place other with later | same | earlier
  · have := monotone_nthOffset copy (Nat.succ_le_of_lt later)
    rw [Copy.nthOffset] at this
    omega
  · rw [isOther, ← same, isRead] at isOtherData
    rw [isOther, ← same, ← isOtherData] at offsetAbove
    omega
  · have := monotone_nthOffset copy (Nat.succ_le_of_lt earlier)
    rw [Copy.nthOffset, ← isOther] at this
    omega

theorem exact_upload_iff (copy : Copy) (file : LocalFile source) :
    (upload copy file.localRead).Exact source copy.start copy.size ↔
      copy.FitsFrom copy.start ∧ copy.ReadsWhole file.localRead := by
  refine ⟨fun exact => ⟨?_, readsWhole_of_exact file exact⟩,
    fun condition => exact_upload condition.1 file condition.2⟩
  by_contra notFits
  obtain ⟨wide, left⟩ := not_or.mp notFits
  exact not_exact_upload_of_notFits (Nat.not_lt.mp wide) (Nat.not_lt.mp left) file exact

/-! ### A relay, part by part -/

variable {relaying later : Relaying} {relayEvent : RelayEvent} {task : RelayTask}

/-- A task reads on, has its write carried out, is answered, or fails the copy. -/
theorem Relaying.step_cases (source : Nat → UInt8)
    (stepped : relaying.step copy relayEvent = some later) :
    (∃ task ∈ relaying.tasks, ∃ part, relayEvent = .read task (.ok part) ∧
      task.buffer.length < task.range.len ∧ later = relaying.extend task part) ∨
    (∃ task ∈ relaying.tasks, task.range.len ≤ task.buffer.length ∧ later = relaying.land task) ∨
    (∃ task ∈ relaying.landed, later = relaying.answer copy task) ∨
    (∃ error, later = relaying.fail error ∧ ¬ relayEvent.Good source) := by
  unfold Relaying.step at stepped
  split at stepped
  · dsimp only at stepped
    split at stepped
    · rename_i taken
      split at stepped
      · refine .inr (.inr (.inr ⟨_, (Option.some.inj stepped).symm, ?_⟩))
        rintro ⟨part, isPart, _⟩
        cases isPart
      · split at stepped
        · rename_i isEmpty
          refine .inr (.inr (.inr ⟨_, (Option.some.inj stepped).symm, ?_⟩))
          rintro ⟨part, isPart, isSome, _⟩
          cases isPart
          exact isSome (List.isEmpty_iff.mp isEmpty)
        · split at stepped
          · rename_i long
            refine .inr (.inr (.inr ⟨_, (Option.some.inj stepped).symm, ?_⟩))
            rintro ⟨part, isPart, _, short, _⟩
            cases isPart
            omega
          · exact .inl ⟨_, taken.2.1, _, rfl, taken.2.2, (Option.some.inj stepped).symm⟩
    · cases stepped
  · split at stepped
    · rename_i taken
      exact .inr (.inl ⟨_, taken.1, taken.2, (Option.some.inj stepped).symm⟩)
    · cases stepped
  · split at stepped
    · rename_i taken
      exact .inr (.inr (.inl ⟨_, taken.2, (Option.some.inj stepped).symm⟩))
    · cases stepped
  · split at stepped
    · exact .inr (.inr (.inr ⟨_, (Option.some.inj stepped).symm, fun good => by cases good⟩))
    · cases stepped

/-- What is left to be done for the tasks: their bytes, and two answers for each. -/
def owed (tasks : List RelayTask) : Nat :=
  (tasks.map fun task => task.range.len - task.buffer.length + 2).sum

theorem owed_cons (task : RelayTask) (tasks : List RelayTask) :
    owed (task :: tasks) = task.range.len - task.buffer.length + 2 + owed tasks := by
  rw [owed, map_cons, sum_cons, owed]

theorem owed_append (first second : List RelayTask) :
    owed (first ++ second) = owed first + owed second := by
  rw [owed, map_append, sum_append, owed, owed]

theorem owed_of_perm {first second : List RelayTask} (perm : first.Perm second) :
    owed first = owed second :=
  Perm.sum_nat (perm.map _)

/-- What spawning tasks comes to. -/
structure SpawnSpec (copy : Copy) (free next : Nat) (spawned : List RelayTask × Nat) : Prop where
  fresh : ∀ task ∈ spawned.1, task.buffer = []
  tiles : ∀ index, coverings (spawned.1.map RelayTask.range) index +
    within spawned.2 copy.size index = within next copy.size index
  settled : 0 < free → spawned.1 = [] → copy.size ≤ spawned.2
  lowers : copy.FitsFrom next →
    copy.FitsFrom spawned.2 ∧ owed spawned.1 + 3 * (copy.size - spawned.2) ≤ 3 * (copy.size - next)
  left : 2 ^ 32 ≤ copy.chunk → 2 ^ 32 ≤ copy.size - next → 2 ^ 32 ≤ copy.size - spawned.2

theorem SpawnSpec.nothing {free next : Nat} (why : free = 0 ∨ copy.size ≤ next) :
    SpawnSpec copy free next ([], next) where
  fresh task member := by cases member
  tiles index := Nat.zero_add _
  settled some _ := why.resolve_left (Nat.ne_of_gt some)
  lowers fits := ⟨fits, Nat.le_of_eq (Nat.zero_add _)⟩
  left _ left := left

theorem spawnTasks_spec (copy : Copy) (free next : Nat) :
    SpawnSpec copy free next (spawnTasks copy free next) := by
  induction free generalizing next with
  | zero => exact SpawnSpec.nothing (.inl rfl)
  | succ free inductionHypothesis =>
    unfold spawnTasks
    split
    · rename_i more
      have others := inductionHypothesis (next + copy.requestLen next)
      have fitting : next + copy.requestLen next ≤ copy.size := by
        have := requestLen_le copy next
        omega
      refine ⟨forall_mem_cons.mpr ⟨rfl, others.fresh⟩, fun index => ?_,
        fun _ isEmpty => (by cases isEmpty), fun fits => ?_,
        fun wide left => others.left wide (left_of_notFits wide left)⟩
      · have cut := within_add (Nat.le_add_right next (copy.requestLen next)) fitting index
        have := others.tiles index
        rw [map_cons, coverings_cons]
        dsimp only
        omega
      · have some := requestLen_pos fits more
        obtain ⟨fitsLater, lowers⟩ := others.lowers (FitsFrom.later fits (copy.requestLen next))
        refine ⟨fitsLater, ?_⟩
        rw [owed_cons]
        dsimp only [length_nil]
        omega
    · rename_i past
      exact SpawnSpec.nothing (.inr (Nat.not_lt.mp past))

/-- Something is waited for, or the copy is over. -/
def Relaying.Settled (copy : Copy) (state : Relaying) : Prop :=
  state.result = none ∧ (state.tasks ≠ [] ∨ state.landed ≠ []) ∨
    state.result = some (.ok ()) ∧ state.tasks = [] ∧ state.landed = [] ∧ copy.size ≤ state.next

theorem settled_relayRefill (copy : Copy) (state : Relaying) :
    (state.refill copy).Settled copy := by
  have spec := spawnTasks_spec copy
    (copy.window - (state.tasks.length + state.landed.length)) state.next
  unfold Relaying.Settled Relaying.refill
  dsimp only
  split
  · rename_i finished
    exact .inr ⟨rfl, List.isEmpty_iff.mp finished.1, List.isEmpty_iff.mp finished.2.1,
      finished.2.2⟩
  · rename_i unfinished
    refine .inl ⟨rfl, ?_⟩
    by_contra nothing
    obtain ⟨noTasks, noLanded⟩ := not_or.mp nothing
    have isEmpty := not_not.mp noTasks
    obtain ⟨wasEmpty, noneSpawned⟩ := append_eq_nil_iff.mp isEmpty
    have free := copy.windowPositive
    refine unfinished ⟨List.isEmpty_iff.mpr isEmpty, List.isEmpty_iff.mpr (not_not.mp noLanded), ?_⟩
    refine spec.settled ?_ noneSpawned
    rw [wasEmpty, not_not.mp noLanded]
    exact free

/-- Something can always be answered well until the copy is over. -/
theorem Relaying.Settled.goesOn (source : Nat → UInt8) (settled : relaying.Settled copy) :
    relaying.result = some (.ok ()) ∨
      ∃ event next, RelayEvent.Good source event ∧ relaying.step copy event = some next := by
  rcases settled with ⟨running, waits⟩ | ⟨succeeded, _⟩
  · refine .inr ?_
    rcases waits with working | landed
    · obtain ⟨task, others, isTask⟩ := exists_cons_of_ne_nil working
      have member : task ∈ relaying.tasks := isTask ▸ mem_cons_self ..
      by_cases reads : task.buffer.length < task.range.len
      · refine ⟨.read task (.ok [source (task.range.offset + task.buffer.length)]),
          relaying.extend task [source (task.range.offset + task.buffer.length)],
          ⟨_, rfl, cons_ne_nil _ _, Nat.sub_pos_of_lt reads, agrees_single _ _⟩, ?_⟩
        have short : ¬ task.range.len - task.buffer.length < 1 := by omega
        simp [Relaying.step, running, member, reads, short]
      · exact ⟨.lands task, _, trivial, if_pos ⟨member, Nat.not_lt.mp reads⟩⟩
    · obtain ⟨task, others, isLanded⟩ := exists_cons_of_ne_nil landed
      have carriedOut : task ∈ relaying.landed := isLanded ▸ mem_cons_self ..
      exact ⟨.answered task (.ok ()), _, rfl, if_pos ⟨running, carriedOut⟩⟩
  · exact .inl succeeded

/-- What the tasks have read is right, and their chunks and what has no task yet are left to be
written. -/
structure Relaying.Sound (copy : Copy) (source : Nat → UInt8) (state : Relaying) : Prop where
  reads : ∀ task ∈ state.tasks, task.buffer.length ≤ task.range.len ∧
    Agrees source task.range.offset task.buffer
  tiling : Tiling source 0 copy.size state.writes
    (state.tasks.map RelayTask.range ++ [⟨state.next, copy.size - state.next⟩])
  settled : state.Settled copy

theorem Relaying.Sound.refill
    (reads : ∀ task ∈ relaying.tasks, task.buffer.length ≤ task.range.len ∧
      Agrees source task.range.offset task.buffer)
    (tiling : Tiling source 0 copy.size relaying.writes
      (relaying.tasks.map RelayTask.range ++ [⟨relaying.next, copy.size - relaying.next⟩])) :
    (relaying.refill copy).Sound copy source := by
  have spec := spawnTasks_spec copy
    (copy.window - (relaying.tasks.length + relaying.landed.length)) relaying.next
  refine ⟨forall_mem_append.mpr ⟨reads, fun task member => ?_⟩,
    tiling.regroup fun index => ?_, settled_relayRefill copy relaying⟩
  · rw [spec.fresh task member]
    exact ⟨Nat.zero_le _, agrees_nil _ _⟩
  · have same := spec.tiles index
    rw [coverings_append, coverings_append, coverings_unsent, coverings_unsent]
    dsimp only [Relaying.refill]
    rw [map_append, coverings_append]
    omega

theorem sound_startRelay (copy : Copy) (source : Nat → UInt8) :
    (startRelay copy).Sound copy source :=
  Relaying.Sound.refill (fun task member => by cases member)
    (Tiling.start fun index => coverings_unsent _ _ index)

theorem Relaying.Sound.step (sound : relaying.Sound copy source) (good : relayEvent.Good source)
    (stepped : relaying.step copy relayEvent = some later) : later.Sound copy source := by
  rcases Relaying.step_cases source stepped with ⟨task, member, part, rfl, more, rfl⟩ |
    ⟨task, member, whole, rfl⟩ | ⟨task, landed, rfl⟩ | ⟨error, rfl, bad⟩
  · obtain ⟨_, isPart, _, short, agrees⟩ := good
    cases isPart
    have perm := ((perm_cons_erase member).map RelayTask.range).append_right
      [⟨relaying.next, copy.size - relaying.next⟩]
    refine ⟨forall_mem_cons.mpr ⟨⟨?_, (sound.reads task member).2.append agrees⟩, ?_⟩,
      sound.tiling.regroup fun index => (coverings_of_perm perm index).symm, ?_⟩
    · have want : part.length ≤ task.range.len - task.buffer.length := short
      show (task.buffer ++ part).length ≤ task.range.len
      rw [length_append]
      omega
    · exact fun other isOther => sound.reads other (mem_of_mem_erase isOther)
    · rcases sound.settled with ⟨running, _⟩ | ⟨_, isEmpty, _⟩
      · exact .inl ⟨running, .inl (cons_ne_nil _ _)⟩
      · rw [isEmpty] at member
        cases member
  · obtain ⟨short, agrees⟩ := sound.reads task member
    have perm := ((perm_cons_erase member).map RelayTask.range).append_right
      [⟨relaying.next, copy.size - relaying.next⟩]
    refine ⟨fun other isOther => sound.reads other (mem_of_mem_erase isOther), ?_, ?_⟩
    · exact (sound.tiling.regroup fun index => (coverings_of_perm perm index).symm).writeWhole
        (Nat.le_antisymm short whole) agrees
    · rcases sound.settled with ⟨running, _⟩ | ⟨_, isEmpty, _⟩
      · exact .inl ⟨running, .inr (cons_ne_nil _ _)⟩
      · rw [isEmpty] at member
        cases member
  · exact Relaying.Sound.refill sound.reads sound.tiling
  · exact absurd good bad

/-- What is still to be done for a relay. -/
def Relaying.remaining (copy : Copy) (state : Relaying) : Nat :=
  owed state.tasks + state.landed.length + 3 * (copy.size - state.next)

theorem Relaying.lowers (fits : copy.FitsFrom relaying.next) (good : relayEvent.Good source)
    (stepped : relaying.step copy relayEvent = some later) :
    copy.FitsFrom later.next ∧ later.remaining copy < relaying.remaining copy := by
  rcases Relaying.step_cases source stepped with ⟨task, member, part, rfl, more, rfl⟩ |
    ⟨task, member, whole, rfl⟩ | ⟨task, landed, rfl⟩ | ⟨error, rfl, bad⟩
  · obtain ⟨_, isPart, isSome, short, _⟩ := good
    cases isPart
    have before := owed_of_perm (perm_cons_erase member)
    have got := length_pos_of_ne_nil isSome
    refine ⟨fits, ?_⟩
    rw [owed_cons] at before
    simp only [Relaying.remaining, Relaying.extend, owed_cons, length_append, before]
    omega
  · have before := owed_of_perm (perm_cons_erase member)
    refine ⟨fits, ?_⟩
    rw [owed_cons] at before
    simp only [Relaying.remaining, Relaying.land, length_cons, before]
    omega
  · have spec := spawnTasks_spec copy
      (copy.window - (relaying.tasks.length + (relaying.landed.erase task).length)) relaying.next
    obtain ⟨fitsLater, lowers⟩ := spec.lowers fits
    have count := length_erase_of_mem landed
    have some := length_pos_of_mem landed
    refine ⟨fitsLater, ?_⟩
    simp only [Relaying.remaining, Relaying.answer, Relaying.refill, owed_append]
    omega
  · exact absurd good bad

theorem exact_relay (fits : copy.FitsFrom 0) (source : Nat → UInt8) :
    (relay copy source).Exact source 0 copy.size := by
  have starts : (startRelay copy).Sound copy source ∧ copy.FitsFrom (startRelay copy).next :=
    ⟨sound_startRelay copy source, ((spawnTasks_spec copy _ 0).lowers fits).1⟩
  have kept : ∀ state event next,
      Relaying.Sound copy source state ∧ copy.FitsFrom state.next → RelayEvent.Good source event →
      (relay copy source).machine.step state event = some next →
      (next.Sound copy source ∧ copy.FitsFrom next.next) ∧
        next.remaining copy < state.remaining copy := by
    intro state event next before good stepped
    obtain ⟨fitsNext, less⟩ := Relaying.lowers before.2 good stepped
    exact ⟨⟨before.1.step good stepped, fitsNext⟩, less⟩
  refine ⟨⟨_, rfl⟩, ?_, ?_⟩
  · rintro begun rfl
    exact Machine.endsIn_of_lowers _ kept (fun _ holds => holds.1.settled.goesOn source) starts
  · rintro begun events final rfl along ran succeeded
    have sound := (Machine.invariant
      (fun state event next before good stepped => (kept state event next before good stepped).1)
      starts along ran).1
    rcases sound.settled with ⟨running, _⟩ | ⟨_, noTasks, _, past⟩
    · cases running.symm.trans succeeded
    · refine (sound.tiling.regroup fun index => ?_).fillsOnce
      rw [noTasks, map_nil, nil_append]
      exact (Tiling.coverings_cons_of_empty (Nat.sub_eq_zero_of_le past) index).symm

theorem left_of_relayStep (wide : 2 ^ 32 ≤ copy.chunk)
    (left : 2 ^ 32 ≤ copy.size - relaying.next)
    (stepped : relaying.step copy relayEvent = some later) :
    2 ^ 32 ≤ copy.size - later.next := by
  rcases Relaying.step_cases (fun _ => 0) stepped with ⟨task, _, part, _, _, rfl⟩ |
    ⟨task, _, _, rfl⟩ | ⟨task, _, rfl⟩ | ⟨error, rfl, _⟩
  · exact left
  · exact left
  · exact (spawnTasks_spec copy _ relaying.next).left wide left
  · exact left

theorem exact_relay_iff (copy : Copy) (source : Nat → UInt8) :
    (relay copy source).Exact source 0 copy.size ↔ copy.FitsFrom 0 := by
  refine ⟨fun exact => ?_, fun fits => exact_relay fits source⟩
  by_contra notFits
  obtain ⟨wide, left⟩ := not_or.mp notFits
  have begins : (relay copy source).begins (startRelay copy) := rfl
  have starts : (startRelay copy).Sound copy source ∧
      2 ^ 32 ≤ copy.size - (startRelay copy).next :=
    ⟨sound_startRelay copy source,
      (spawnTasks_spec copy _ 0).left (Nat.not_lt.mp wide) (Nat.not_lt.mp left)⟩
  have kept : ∀ state event next,
      Relaying.Sound copy source state ∧ 2 ^ 32 ≤ copy.size - state.next →
      RelayEvent.Good source event → (relay copy source).machine.step state event = some next →
      next.Sound copy source ∧ 2 ^ 32 ≤ copy.size - next.next :=
    fun state event next endless good stepped => ⟨endless.1.step good stepped,
      left_of_relayStep (Nat.not_lt.mp wide) endless.2 stepped⟩
  refine not_exact_of_more begins starts kept ?_ exact
  · intro state endless
    refine (endless.1.settled.goesOn source).resolve_left fun succeeded => ?_
    rcases endless.1.settled with ⟨running, _⟩ | ⟨_, _, _, past⟩
    · cases running.symm.trans succeeded
    · have := endless.2
      omega

/-! ### All three -/

/-- A download writes each byte from its start on once, and its counter is right on the way. -/
def DownloadsExactly (copy : Copy) (source : Nat → UInt8) : Prop :=
  (download copy source).Exact source copy.start copy.size ∧
    (download copy source).KeepsPrefix copy.start Downloading.done

/-- An upload writes each byte from its start on once, and the counter of every upload is right on
the way, where the file is read whole as long as it can be read. -/
def UploadsExactly (copy : Copy) {source : Nat → UInt8} (file : LocalFile source) : Prop :=
  (upload copy file.localRead).Exact source copy.start copy.size ∧
    ∀ read, copy.ReadsWhole read → (upload copy read).KeepsPrefix copy.start Uploading.done

/-- A relay writes each byte of the file once. -/
def RelaysExactly (copy : Copy) (source : Nat → UInt8) : Prop :=
  (relay copy source).Exact source 0 copy.size

/-- The copies do what they are for where the length of a request is never cut to its 32 bits, and
for an upload where the file is read whole. -/
theorem copies_exactly_iff (copy : Copy) (source : Nat → UInt8) (file : LocalFile source) :
    (DownloadsExactly copy source ↔ copy.FitsFrom copy.start) ∧
      (UploadsExactly copy file ↔
        copy.FitsFrom copy.start ∧ copy.ReadsWhole file.localRead) ∧
      (RelaysExactly copy source ↔ copy.FitsFrom 0) := by
  refine ⟨?_, ?_, exact_relay_iff copy source⟩
  · rw [DownloadsExactly, and_iff_left (keepsPrefix_download copy source)]
    exact exact_download_iff copy source
  · rw [UploadsExactly, and_iff_left fun read reads => keepsPrefix_upload reads]
    exact exact_upload_iff copy file

/-- One chunk of 2^32 bytes. -/
def wideCopy : Copy where
  start := 0
  size := 2 ^ 32
  chunk := 2 ^ 32
  window := 1
  opName := "download"
  chunkPositive := by decide
  windowPositive := by decide

/-- A file that gives what it is asked for. -/
def wholeFile (source : Nat → UInt8) : LocalFile source where
  read offset len := (List.range len).map fun place => source (offset + place)
  short offset len := by rw [length_map, length_range]
  some offset len more isEmpty := by
    have none := congrArg List.length isEmpty
    rw [length_map, length_range, length_nil] at none
    omega
  agrees offset len place byte isByte := by
    rw [getElem?_map] at isByte
    obtain ⟨found, isFound, rfl⟩ := Option.map_eq_some_iff.mp isByte
    obtain ⟨_, isPlace⟩ := List.getElem?_eq_some_iff.mp isFound
    rw [← isPlace, getElem_range]

theorem not_copies_exactly_wide : ¬ ∀ (copy : Copy) (source : Nat → UInt8)
    (file : LocalFile source),
    DownloadsExactly copy source ∧ UploadsExactly copy file ∧ RelaysExactly copy source := by
  intro always
  have fits := (exact_download_iff wideCopy fun _ => 0).mp (always wideCopy _ (wholeFile _)).1.1
  revert fits
  unfold Copy.FitsFrom
  decide

end Oryxis.Copies

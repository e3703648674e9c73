/-
This file is a download and an upload that are tried again and again until one
succeeds, and proves when that leaves the source's content.

An attempt ends in an error, in a crash at any point, or in success. The next one
sees the partial file that is left and takes its length for how much of it is there,
less a slack. A sequential copy writes in order, so its length is honest. A window
bounds how many requests are in flight, not how far the others run ahead of the
oldest: the length is honest as long as they stay within the slack.
-/

import Oryxis.Sftp.Window

namespace Oryxis

open Library

def resumeVerifyBytes : Nat := 64 * 1024

/-- Whether the end of what would be continued is the source's. -/
def tailMatches (source : SourceFile) (file : File) (offset : Nat) : Bool :=
  let span := min resumeVerifyBytes offset
  decide (offset ≠ 0) && decide (offset ≤ source.size) &&
    (List.range span).all fun index =>
      file.read 0 (offset - span + index) = source.byte (offset - span + index)

/-! ### Downloads -/

/-- How an attempt ends. An orderly failure cuts the scratch file to its contiguous prefix, if it
can; `refused` is a failure before the scratch file is opened, and `unclaimed` one of the last
rename. -/
inductive DownloadEnding where
  | refused
  | crashed
  | failed (trimmed : Bool)
  | unclaimed (removed : Bool)
  | succeeded
  deriving DecidableEq, Repr

structure DownloadAttempt where
  forceResume : Bool
  /-- How much a sequential copy has written. -/
  pumped : Nat
  /-- The replies a windowed copy has received. -/
  replies : List Reply
  ending : DownloadEnding

structure LocalFiles where
  scratch : Option File
  target : Option File

/-- Where a download continues its scratch file, or zero. -/
def downloadFrom (source : SourceFile) (forceResume : Bool) (scratch : Option File) : Nat :=
  if forceResume ∨ source.size ≥ streamThreshold then
    match scratch with
    | none => 0
    | some file =>
      let offset := resumeOffset source.size file.length
      if 0 < offset ∧ tailMatches source file offset then offset else 0
  else 0

/-- What is left once the bytes of a scratch file are all there. -/
def finishPart (file : File) (files : LocalFiles) : DownloadEnding → LocalFiles
  | .succeeded => ⟨none, some file⟩
  | .unclaimed true => ⟨some file, none⟩
  | _ => { files with scratch := some file }

/-- The copy may end like this: whole if it is claimed to be. -/
def DownloadEnding.fits (ending : DownloadEnding) (whole : Bool) : Bool :=
  match ending with
  | .succeeded | .unclaimed _ => whole
  | _ => true

/-- The windowed copy of an attempt, as it starts. -/
def downloadStart (source : SourceFile) (files : LocalFiles) (attempt : DownloadAttempt) :
    DownloadWindow :=
  let offset := downloadFrom source attempt.forceResume files.scratch
  startDownload source offset
    (if 0 < offset then files.scratch.getD SparseFile.empty else SparseFile.empty)

/-- Whether an attempt copies sequentially, from the start. -/
def downloadPumps (source : SourceFile) (files : LocalFiles) (attempt : DownloadAttempt) : Prop :=
  source.size < streamThreshold ∧ downloadFrom source attempt.forceResume files.scratch = 0

instance (source : SourceFile) (files : LocalFiles) (attempt : DownloadAttempt) :
    Decidable (downloadPumps source files attempt) :=
  inferInstanceAs (Decidable (_ ∧ _))

def attemptDownload (source : SourceFile) (files : LocalFiles) (attempt : DownloadAttempt) :
    Option LocalFiles :=
  if attempt.ending = .refused then some files
  else if downloadPumps source files attempt then
    if attempt.pumped ≤ source.size ∧ attempt.ending.fits (attempt.pumped = source.size) then
      some (finishPart (SparseFile.empty.write source.byte 0 attempt.pumped) files attempt.ending)
    else none
  else
    match (downloadWindow source).run (downloadStart source files attempt) attempt.replies with
    | none => none
    | some window =>
      if attempt.ending.fits window.outstanding.isEmpty then
        match attempt.ending with
        | .refused | .crashed | .failed false => some { files with scratch := some window.file }
        | .failed true =>
          some { files with scratch := some (window.file.setLength window.progress.contiguous) }
        | ending => some (finishPart (window.file.setLength source.size) files ending)
      else none

def downloads (source : SourceFile) : Machine LocalFiles DownloadAttempt where
  step := attemptDownload source

/-! ### Uploads -/

/-- What becomes of the partial file after an orderly failure. -/
inductive Leftover where
  | trimmed
  | removed
  | left
  deriving DecidableEq, Repr

inductive UploadEnding where
  | refused
  | crashed
  | failed (leftover : Leftover)
  | unclaimed
  | succeeded
  deriving DecidableEq, Repr

structure UploadAttempt where
  resume : Bool
  fsync : Bool
  pumped : Nat
  events : List UploadEvent
  ending : UploadEnding

/-- The file the bytes go to, and with a scratch name the one under the real name. -/
structure ServerFiles where
  target : Option File
  renamed : Option File

/-- Where an upload continues its destination; `none` when that cannot be a partial copy. -/
def uploadFrom (source : SourceFile) (resume : Bool) (target : Option File) : Option Nat :=
  if resume then
    match target with
    | none => some 0
    | some file =>
      if file.length = 0 then some 0
      else if file.length ≥ source.size then none
      else
        let offset := resumeOffset source.size file.length
        if offset = 0 then some 0
        else if tailMatches source file offset then some offset
        else none
  else some 0

/-- The partial file of a failed upload, cut to what is kept of it or removed. -/
def discardUploadPartial (file : File) (keepable : Bool) (keep : Nat) :
    Leftover → Option (Option File)
  | .trimmed => if keepable then some (some (file.setLength keep)) else none
  | .removed => some none
  | .left => some (some file)

def UploadEnding.fits (ending : UploadEnding) (whole : Bool) : Bool :=
  match ending with
  | .succeeded | .unclaimed => whole
  | _ => true

/-- What is left of an attempt whose file has come to this. -/
def settleUpload (tempName keepable : Bool) (keep : Nat) (file : File) (files : ServerFiles) :
    UploadEnding → Option ServerFiles
  | .refused => none
  | .crashed => some { files with target := some file }
  | .failed leftover =>
    (discardUploadPartial file keepable keep leftover).map fun target =>
      { files with target := target }
  | .unclaimed => if tempName then some ⟨some file, none⟩ else none
  | .succeeded =>
    if tempName then some ⟨none, some file⟩ else some { files with target := some file }

/-- The windowed copy of an attempt, as it starts. -/
def uploadStart (source : SourceFile) (files : ServerFiles) (offset : Nat) : UploadWindow :=
  startUpload source offset
    (if 0 < offset then files.target.getD SparseFile.empty else SparseFile.empty)

def attemptUpload (source : SourceFile) (tempName : Bool) (files : ServerFiles)
    (attempt : UploadAttempt) : Option ServerFiles :=
  if attempt.ending = .refused then some files
  else
    match uploadFrom source attempt.resume files.target with
    | none => none
    | some offset =>
      if source.size < streamThreshold ∧ offset = 0 ∧ attempt.fsync = false then
        if attempt.pumped ≤ source.size ∧ attempt.ending.fits (attempt.pumped = source.size) then
          settleUpload tempName tempName 0 (SparseFile.empty.write source.byte 0 attempt.pumped) files
            attempt.ending
        else none
      else
        match (uploadWindow source).run (uploadStart source files offset) attempt.events with
        | none => none
        | some window =>
          if attempt.ending.fits (window.isOver source.size) then
            settleUpload tempName (tempName || decide (0 < offset)) window.progress.contiguous
              window.file files attempt.ending
          else none

def uploads (source : SourceFile) (tempName : Bool) : Machine ServerFiles UploadAttempt where
  step := attemptUpload source tempName

/-- The file an upload is to leave. -/
def ServerFiles.delivered (tempName : Bool) (files : ServerFiles) : Option File :=
  if tempName then files.renamed else files.target

/-! ### What a partial file is worth -/

variable {source : SourceFile} {file : File}

/-- Everything below the offset a resume would start at is the source's. -/
structure ResumesSolid (source : SourceFile) (file : File) : Prop where
  faithful : ∀ {index byte}, file.byte index = some byte → byte = source.byte index
  solid : ∀ index < resumeOffset source.size file.length,
    file.byte index = some (source.byte index)

theorem resumeOffset_le (size length : Nat) : resumeOffset size length ≤ length := by
  unfold resumeOffset
  split
  · exact Nat.zero_le _
  · split <;> omega

/-- A file without holes. -/
theorem resumesSolid_of_present
    (faithful : ∀ {index byte}, file.byte index = some byte → byte = source.byte index)
    (present : ∀ index < file.length, file.byte index ≠ none) : ResumesSolid source file := by
  refine ⟨faithful, fun index below => ?_⟩
  have := resumeOffset_le source.size file.length
  obtain ⟨byte, isByte⟩ := Option.ne_none_iff_exists'.mp (present index (by omega))
  rw [isByte, faithful isByte]

theorem resumesSolid_pumped (count : Nat) :
    ResumesSolid source (SparseFile.empty.write source.byte 0 count) := by
  refine resumesSolid_of_present ?_ ?_
  · intro index byte isByte
    simp only [SparseFile.write] at isByte
    split at isByte
    · exact (Option.some.inj isByte).symm
    · cases isByte
  · intro index below
    have inside : index < count := by simpa [SparseFile.write, SparseFile.empty] using below
    simp [SparseFile.write, inside]

theorem isCopy_pumped :
    (SparseFile.empty.write source.byte 0 source.size).IsCopy source.byte source.size := by
  refine ⟨by simp [SparseFile.write, SparseFile.empty], fun index inside => ?_⟩
  simp [SparseFile.write, inside]

/-- A file that is being filled with every write near the others. -/
theorem resumesSolid_of_filling {outstanding : List Range}
    (filling : Filling source.byte source.size (resumeSlack source.size) file outstanding) :
    ResumesSolid source file := by
  refine ⟨filling.faithful, fun index below => ?_⟩
  unfold resumeOffset at below
  split at below
  · exact absurd below (Nat.not_lt_zero _)
  · rename_i partly
    refine filling.written (by omega) ?_
    unfold resumeSlack
    split at below <;> rename_i small
    · rw [if_pos small]
      exact below
    · rw [if_neg small]
      omega

/-- The contiguous prefix of a window's file. -/
theorem resumesSolid_setLength {progress : Progress}
    (faithful : ∀ {index byte}, file.byte index = some byte → byte = source.byte index)
    (written : progress.Written file) (keep : Nat) (upTo : keep ≤ progress.contiguous) :
    ResumesSolid source (file.setLength keep) := by
  refine resumesSolid_of_present ?_ ?_
  · intro index byte isByte
    simp only [SparseFile.setLength] at isByte
    split at isByte
    · exact faithful isByte
    · cases isByte
  · intro index below
    have kept : (file.setLength keep).byte index = file.byte index := if_pos below
    rw [kept]
    exact written.prefixWritten index (Nat.lt_of_lt_of_le below upTo)

theorem continuable_empty : Continuable source 0 SparseFile.empty :=
  ⟨(fun isByte => by cases isByte), (fun _ below => absurd below (Nat.not_lt_zero _)),
    Nat.zero_le _⟩

/-- A partial file can be continued from the offset its length gives. -/
theorem ResumesSolid.continuable (solid : ResumesSolid source file)
    (some' : 0 < resumeOffset source.size file.length) :
    Continuable source (resumeOffset source.size file.length) file ∧
      file.length ≤ source.size := by
  have partly : ¬ (file.length = 0 ∨ file.length ≥ source.size) := by
    intro none
    rw [resumeOffset, if_pos none] at some'
    exact absurd some' (Nat.lt_irrefl _)
  refine ⟨⟨solid.faithful, fun index below => ?_, ?_⟩, by omega⟩
  · rw [solid.solid index below]
    simp
  · rw [resumeOffset, if_neg partly, resumeSlack]
    split <;> omega

/-! ### Downloads that stay near -/

/-- The scratch file, if there is one, can be trusted as far as it is. -/
def ScratchSolid (source : SourceFile) (scratch : Option File) : Prop :=
  ∀ file, scratch = some file → ResumesSolid source file

/-- The replies of a windowed attempt never end further than the slack beyond an open request. -/
def DownloadNear (source : SourceFile) (files : LocalFiles) (attempt : DownloadAttempt) : Prop :=
  attempt.ending ≠ .refused → ¬ downloadPumps source files attempt →
    (downloadWindow source).Along (DownloadWindow.RepliesNear source)
      (downloadStart source files attempt) attempt.replies

instance (source : SourceFile) (files : LocalFiles) (attempt : DownloadAttempt) :
    Decidable (DownloadNear source files attempt) :=
  inferInstanceAs (Decidable (_ → _ → Machine.Along ..))

theorem downloadStart_sound {files : LocalFiles} (attempt : DownloadAttempt)
    (solid : ScratchSolid source files.scratch) :
    (downloadStart source files attempt).Sound source := by
  unfold downloadStart
  simp only []
  by_cases continues : 0 < downloadFrom source attempt.forceResume files.scratch
  · rw [if_pos continues]
    unfold downloadFrom at continues ⊢
    split at continues
    · rename_i attempts
      rw [if_pos attempts]
      cases isScratch : files.scratch with
      | none =>
        rw [isScratch] at continues
        exact absurd continues (Nat.lt_irrefl _)
      | some file =>
        simp only [isScratch] at continues ⊢
        split at continues
        · rename_i matching
          rw [if_pos matching]
          exact ((solid file isScratch).continuable matching.1).1.startDownload
        · exact absurd continues (Nat.lt_irrefl _)
    · exact absurd continues (Nat.lt_irrefl _)
  · rw [if_neg continues, Nat.eq_zero_of_not_pos continues]
    exact continuable_empty.startDownload

theorem isCopy_setLength (filling : Filling source.byte source.size (resumeSlack source.size) file []) :
    (file.setLength source.size).IsCopy source.byte source.size := by
  refine ⟨rfl, fun index inside => ?_⟩
  have kept : (file.setLength source.size).byte index = file.byte index := if_pos inside
  rw [kept]
  exact filling.byte_of_all_written inside

theorem resumesSolid_of_isCopy (copy : file.IsCopy source.byte source.size) :
    ResumesSolid source file := by
  refine resumesSolid_of_present ?_ ?_
  · intro index byte isByte
    by_cases inside : index < source.size
    · rw [copy.2 index inside] at isByte
      exact (Option.some.inj isByte).symm
    · rw [file.beyond (by rw [copy.1]; omega)] at isByte
      cases isByte
  · intro index below
    rw [copy.2 index (by rwa [← copy.1])]
    simp

/-- What an attempt has come to: a partial file to be trusted as far as it goes, and the source's
content where it succeeded. -/
structure DownloadSettled (source : SourceFile) (ending : DownloadEnding) (files : LocalFiles) :
    Prop where
  scratch : ScratchSolid source files.scratch
  copied : ending = .succeeded →
    ∃ file, files.target = some file ∧ file.IsCopy source.byte source.size

theorem finishPart_settled {files : LocalFiles} {ending : DownloadEnding}
    (solid : ResumesSolid source file) (copies : ending.fits false = false →
      file.IsCopy source.byte source.size) :
    DownloadSettled source ending (finishPart file files ending) := by
  have scratch : ScratchSolid source (some file) := by
    rintro _ ⟨⟩
    exact solid
  cases ending with
  | succeeded => exact ⟨(fun _ none => by cases none), fun _ => ⟨file, rfl, copies rfl⟩⟩
  | unclaimed removed =>
    cases removed <;> exact ⟨scratch, fun other => by cases other⟩
  | _ => exact ⟨scratch, fun other => by cases other⟩

theorem attemptDownload_settled {files next : LocalFiles} {attempt : DownloadAttempt}
    (solid : ScratchSolid source files.scratch) (near : DownloadNear source files attempt)
    (attempted : attemptDownload source files attempt = some next) :
    DownloadSettled source attempt.ending next := by
  unfold attemptDownload at attempted
  split at attempted
  · rename_i isRefused
    cases attempted
    exact ⟨solid, fun other => by rw [isRefused] at other; cases other⟩
  rename_i notRefused
  split at attempted
  · split at attempted
    · rename_i fits
      cases attempted
      refine finishPart_settled (resumesSolid_pumped _) fun claims => ?_
      have whole : attempt.pumped = source.size := by
        by_contra partly
        rw [decide_eq_false partly] at fits
        rw [fits.2] at claims
        cases claims
      rw [whole]
      exact isCopy_pumped
    · cases attempted
  · rename_i windowed
    split at attempted
    · cases attempted
    · rename_i window ran
      have sound : window.Sound source :=
        (downloadStart_sound attempt solid).run (near notRefused windowed) ran
      split at attempted
      · rename_i fits
        have partial' : ScratchSolid source (some window.file) := by
          rintro _ ⟨⟩
          exact resumesSolid_of_filling sound.filling
        have whole : attempt.ending.fits false = false →
            (window.file.setLength source.size).IsCopy source.byte source.size := by
          intro claims
          have none : window.outstanding = [] := by
            by_contra some'
            rw [List.isEmpty_eq_false_iff.mpr some', claims] at fits
            cases fits
          have filling := sound.filling
          rw [none] at filling
          exact isCopy_setLength filling
        cases isEnding : attempt.ending with
        | refused => exact absurd isEnding notRefused
        | crashed =>
          rw [isEnding] at attempted
          cases attempted
          exact ⟨partial', fun other => by cases other⟩
        | failed trimmed =>
          rw [isEnding] at attempted
          cases trimmed with
          | false =>
            cases attempted
            exact ⟨partial', fun other => by cases other⟩
          | true =>
            cases attempted
            refine ⟨?_, fun other => by cases other⟩
            rintro _ ⟨⟩
            exact resumesSolid_setLength sound.filling.faithful sound.written _ (Nat.le_refl _)
        | unclaimed removed =>
          rw [isEnding] at attempted whole
          cases attempted
          exact finishPart_settled (resumesSolid_of_isCopy (whole rfl)) fun _ => whole rfl
        | succeeded =>
          rw [isEnding] at attempted whole
          cases attempted
          exact finishPart_settled (resumesSolid_of_isCopy (whole rfl)) fun _ => whole rfl
      · cases attempted

/-- Attempts one after the other, whatever was at the target before. -/
theorem downloads_settled {files final : LocalFiles} {attempts : List DownloadAttempt}
    (solid : ScratchSolid source files.scratch)
    (near : (downloads source).Along (DownloadNear source) files attempts)
    (ran : (downloads source).run files attempts = some final) :
    ScratchSolid source final.scratch ∧
      ∀ last, attempts.getLast? = some last → last.ending = .succeeded →
        ∃ file, final.target = some file ∧ file.IsCopy source.byte source.size := by
  have kept : ∀ files attempt next, ScratchSolid source files.scratch →
      DownloadNear source files attempt → (downloads source).step files attempt = some next →
        ScratchSolid source next.scratch ∧ (attempt.ending = .succeeded →
          ∃ file, next.target = some file ∧ file.IsCopy source.byte source.size) := by
    intro files attempt next solid near attempted
    have settled := attemptDownload_settled solid near attempted
    exact ⟨settled.scratch, settled.copied⟩
  exact Machine.invariant_last kept solid near ran

/-! ### Uploads that stay near -/

/-- The writes of a windowed attempt never end further than the slack beyond an open one. -/
def UploadNear (source : SourceFile) (files : ServerFiles) (attempt : UploadAttempt) : Prop :=
  match uploadFrom source attempt.resume files.target with
  | none => True
  | some offset =>
    attempt.ending ≠ .refused →
      ¬ (source.size < streamThreshold ∧ offset = 0 ∧ attempt.fsync = false) →
        (uploadWindow source).Along (UploadWindow.LandsNear source)
          (uploadStart source files offset) attempt.events

instance (source : SourceFile) (files : ServerFiles) (attempt : UploadAttempt) :
    Decidable (UploadNear source files attempt) :=
  match begins : uploadFrom source attempt.resume files.target with
  | none => isTrue (by rw [UploadNear, begins]; trivial)
  | some offset =>
    decidable_of_iff (attempt.ending ≠ .refused →
      ¬ (source.size < streamThreshold ∧ offset = 0 ∧ attempt.fsync = false) →
        (uploadWindow source).Along (UploadWindow.LandsNear source)
          (uploadStart source files offset) attempt.events) (by rw [UploadNear, begins])

variable {files : ServerFiles}

theorem uploadStart_sound {resume : Bool} {offset : Nat} (solid : ScratchSolid source files.target)
    (begins : uploadFrom source resume files.target = some offset) :
    (uploadStart source files offset).Sound source := by
  unfold uploadStart
  by_cases continues : 0 < offset
  · rw [if_pos continues]
    have fromFile : ∃ file, files.target = some file ∧
        offset = resumeOffset source.size file.length := by
      unfold uploadFrom at begins
      split at begins
      · cases isTarget : files.target with
        | none =>
          rw [isTarget] at begins
          cases begins
          exact absurd continues (Nat.lt_irrefl _)
        | some file =>
          refine ⟨file, rfl, ?_⟩
          simp only [isTarget] at begins
          repeat' split at begins
          all_goals cases begins
          · exact absurd continues (Nat.lt_irrefl _)
          · exact absurd continues (Nat.lt_irrefl _)
          · rfl
      · cases begins
        exact absurd continues (Nat.lt_irrefl _)
    obtain ⟨file, isTarget, rfl⟩ := fromFile
    obtain ⟨continuable, short⟩ := (solid file isTarget).continuable continues
    rw [isTarget]
    exact continuable.startUpload short
  · rw [if_neg continues, Nat.eq_zero_of_not_pos continues]
    exact continuable_empty.startUpload (Nat.zero_le _)

structure UploadSettled (source : SourceFile) (tempName : Bool) (ending : UploadEnding)
    (files : ServerFiles) : Prop where
  target : ScratchSolid source files.target
  copied : ending = .succeeded →
    ∃ file, files.delivered tempName = some file ∧ file.IsCopy source.byte source.size

variable {next : ServerFiles} {tempName : Bool}

theorem settleUpload_settled {keepable : Bool} {keep : Nat} {ending : UploadEnding}
    (solid : ResumesSolid source file) (kept : ResumesSolid source (file.setLength keep))
    (copies : ending.fits false = false → file.IsCopy source.byte source.size)
    (settled : settleUpload tempName keepable keep file files ending = some next) :
    UploadSettled source tempName ending next := by
  have whole : ScratchSolid source (some file) := by
    rintro _ ⟨⟩
    exact solid
  cases ending with
  | refused => cases settled
  | crashed =>
    cases settled
    exact ⟨whole, fun other => by cases other⟩
  | failed leftover =>
    refine ⟨?_, fun other => by cases other⟩
    obtain ⟨target, discarded, rfl⟩ := Option.map_eq_some_iff.mp settled
    cases leftover with
    | trimmed =>
      simp only [discardUploadPartial] at discarded
      split at discarded
      · cases discarded
        rintro _ ⟨⟩
        exact kept
      · cases discarded
    | removed =>
      cases discarded
      exact fun _ none => by cases none
    | left =>
      cases discarded
      exact whole
  | unclaimed =>
    simp only [settleUpload] at settled
    split at settled
    · cases settled
      exact ⟨whole, fun other => by cases other⟩
    · cases settled
  | succeeded =>
    have copy := copies rfl
    cases tempName with
    | true =>
      cases settled
      exact ⟨(fun _ none => by cases none), fun _ => ⟨file, rfl, copy⟩⟩
    | false =>
      cases settled
      exact ⟨whole, fun _ => ⟨file, rfl, copy⟩⟩

/-- A window that is over has copied everything. -/
theorem UploadWindow.Sound.isCopy {window : UploadWindow} (sound : window.Sound source)
    (isOver : window.isOver source.size = true) :
    window.file.IsCopy source.byte source.size := by
  simp only [UploadWindow.isOver, Bool.and_eq_true, List.isEmpty_iff, decide_eq_true_eq] at isOver
  obtain ⟨⟨noneInflight, _⟩, allSent⟩ := isOver
  have none : window.outstanding source.size = [] := by
    rw [UploadWindow.outstanding, noneInflight, if_neg (Nat.not_lt_of_le allSent), List.append_nil]
  have filling := sound.filling
  rw [none] at filling
  refine filling.isCopy (Nat.le_antisymm sound.short (Nat.le_of_not_lt fun shorter => ?_))
  -- The last byte of the source would be missing.
  have last := filling.byte_of_all_written shorter
  rw [window.file.beyond (Nat.le_refl _)] at last
  cases last

theorem attemptUpload_settled {attempt : UploadAttempt} (solid : ScratchSolid source files.target)
    (near : UploadNear source files attempt)
    (attempted : attemptUpload source tempName files attempt = some next) :
    UploadSettled source tempName attempt.ending next := by
  unfold attemptUpload at attempted
  split at attempted
  · rename_i isRefused
    cases attempted
    exact ⟨solid, fun other => by rw [isRefused] at other; cases other⟩
  rename_i notRefused
  split at attempted
  · cases attempted
  rename_i offset begins
  split at attempted
  · split at attempted
    · rename_i fits
      have written : Progress.Written ⟨0, []⟩
          (SparseFile.empty.write source.byte 0 attempt.pumped) :=
        ⟨(fun _ below => absurd below (Nat.not_lt_zero _)), fun _ member => by cases member⟩
      refine settleUpload_settled (resumesSolid_pumped _) (resumesSolid_setLength
        (resumesSolid_pumped _).faithful written 0 (Nat.le_refl _)) (fun claims => ?_) attempted
      have whole : attempt.pumped = source.size := by
        by_contra partly
        rw [decide_eq_false partly] at fits
        rw [fits.2] at claims
        cases claims
      rw [whole]
      exact isCopy_pumped
    · cases attempted
  · rename_i windowed
    split at attempted
    · cases attempted
    · rename_i window ran
      rw [UploadNear, begins] at near
      have sound : window.Sound source :=
        (uploadStart_sound solid begins).run (near notRefused windowed) ran
      split at attempted
      · rename_i fits
        refine settleUpload_settled (resumesSolid_of_filling sound.filling) (resumesSolid_setLength
          sound.filling.faithful sound.written _ (Nat.le_refl _)) (fun claims => ?_) attempted
        refine sound.isCopy ?_
        by_contra partly
        rw [Bool.not_eq_true] at partly
        rw [partly, claims] at fits
        cases fits
      · cases attempted

theorem uploads_settled {final : ServerFiles} {attempts : List UploadAttempt}
    (solid : ScratchSolid source files.target)
    (near : (uploads source tempName).Along (UploadNear source) files attempts)
    (ran : (uploads source tempName).run files attempts = some final) :
    ScratchSolid source final.target ∧
      ∀ last, attempts.getLast? = some last → last.ending = .succeeded →
        ∃ file, final.delivered tempName = some file ∧ file.IsCopy source.byte source.size := by
  have kept : ∀ files attempt next, ScratchSolid source files.target →
      UploadNear source files attempt → (uploads source tempName).step files attempt = some next →
        ScratchSolid source next.target ∧ (attempt.ending = .succeeded →
          ∃ file, next.delivered tempName = some file ∧
            file.IsCopy source.byte source.size) := by
    intro files attempt next solid near attempted
    have settled := attemptUpload_settled solid near attempted
    exact ⟨settled.target, settled.copied⟩
  exact Machine.invariant_last kept solid near ran

/-! ### Attempts that end in success -/

/-- In a sequence of attempts whose windows stay near, each ended at any point and in any way, every
partial file can be trusted up to where it is continued, and success leaves the source's content. -/
theorem resumed_isCopy (source : SourceFile) :
    (∀ target attempts files,
      (downloads source).Along (DownloadNear source) ⟨none, target⟩ attempts →
        (downloads source).run ⟨none, target⟩ attempts = some files →
          ScratchSolid source files.scratch ∧
            ∀ last, attempts.getLast? = some last → last.ending = .succeeded →
              ∃ file, files.target = some file ∧ file.IsCopy source.byte source.size) ∧
      ∀ tempName renamed attempts files,
        (uploads source tempName).Along (UploadNear source) ⟨none, renamed⟩ attempts →
          (uploads source tempName).run ⟨none, renamed⟩ attempts = some files →
            ScratchSolid source files.target ∧
              ∀ last, attempts.getLast? = some last → last.ending = .succeeded →
                ∃ file, files.delivered tempName = some file ∧
                  file.IsCopy source.byte source.size := by
  have noFile : ScratchSolid source none := fun _ none => by cases none
  constructor
  · intro target attempts files near ran
    exact downloads_settled noFile near ran
  · intro tempName renamed attempts files near ran
    exact uploads_settled noFile near ran

def threeBytes : SourceFile := ⟨3, fun index => (index + 1).toUInt8⟩

/-- A crash after one byte, and a download of the rest. -/
def crashThenSuccess : List DownloadAttempt :=
  [⟨false, 1, [], .crashed⟩, ⟨true, 0, [⟨⟨1, 2⟩, 1⟩, ⟨⟨2, 1⟩, 1⟩], .succeeded⟩]

/-- A crash of a window that is asked to flush the file, and an upload of the rest. -/
def crashThenUploaded : List UploadAttempt :=
  [⟨true, true, 0, [], .crashed⟩,
    ⟨true, true, 0, [.lands ⟨0, 3⟩, .answered ⟨0, 3⟩], .succeeded⟩]

theorem resumed_isCopy_threeBytes :
    (∃ files, (downloads threeBytes).run ⟨none, none⟩ crashThenSuccess = some files ∧
        ∃ file, files.target = some file ∧ file.IsCopy threeBytes.byte threeBytes.size) ∧
      ∃ files, (uploads threeBytes true).run ⟨none, none⟩ crashThenUploaded = some files ∧
        ∃ file, files.renamed = some file ∧ file.IsCopy threeBytes.byte threeBytes.size := by
  have downloaded : ((downloads threeBytes).run ⟨none, none⟩ crashThenSuccess).isSome = true := by
    decide +kernel
  have uploaded : ((uploads threeBytes true).run ⟨none, none⟩ crashThenUploaded).isSome = true := by
    decide +kernel
  have downloadsNear : (downloads threeBytes).Along (DownloadNear threeBytes) ⟨none, none⟩
      crashThenSuccess := by
    decide +kernel
  have uploadsNear : (uploads threeBytes true).Along (UploadNear threeBytes) ⟨none, none⟩
      crashThenUploaded := by
    decide +kernel
  obtain ⟨files, ran⟩ := Option.isSome_iff_exists.mp downloaded
  obtain ⟨server, served⟩ := Option.isSome_iff_exists.mp uploaded
  obtain ⟨download, upload⟩ := resumed_isCopy threeBytes
  exact ⟨⟨files, ran, (download none crashThenSuccess files downloadsNear ran).2 _ rfl rfl⟩,
    ⟨server, served, (upload true none crashThenUploaded server uploadsNear served).2 _ rfl rfl⟩⟩

/-- Nine million ones. -/
def manyOnes : SourceFile := ⟨9000000, fun _ => 1⟩

/-- The first chunk stays open while the next twenty arrive. -/
def overtaken : List DownloadAttempt :=
  [⟨false, 0, (List.range 20).map fun index =>
    ⟨⟨(index + 1) * streamChunk, streamChunk⟩, streamChunk⟩, .crashed⟩]

/-- Half a million ones. -/
def fewOnes : SourceFile := ⟨600000, fun _ => 1⟩

/-- A sequential copy crashes after one byte, and the window that continues it while its first chunk
is open. -/
def smallOvertaken : List DownloadAttempt :=
  [⟨false, 1, [], .crashed⟩,
    ⟨true, 0, [⟨⟨1 + streamChunk, streamChunk⟩, streamChunk⟩], .crashed⟩]

/-- A large file with a hole below where it is continued, and a small one. -/
theorem not_scratchSolid_overtaken :
    (∃ files, (downloads manyOnes).run ⟨none, none⟩ overtaken = some files ∧
        ¬ ScratchSolid manyOnes files.scratch) ∧
      ∃ files, (downloads fewOnes).run ⟨none, none⟩ smallOvertaken = some files ∧
        ¬ ScratchSolid fewOnes files.scratch := by
  have hole : ∀ source attempts index,
      ((downloads source).run ⟨none, none⟩ attempts).any (fun files => files.scratch.any fun file =>
        decide (index < resumeOffset source.size file.length) && (file.byte index).isNone) = true →
      ∃ files, (downloads source).run ⟨none, none⟩ attempts = some files ∧
        ¬ ScratchSolid source files.scratch := by
    intro source attempts index found
    obtain ⟨files, ran, inFiles⟩ := (Option.any_eq_true _ _).mp found
    obtain ⟨file, isScratch, inFile⟩ := (Option.any_eq_true _ _).mp inFiles
    rw [Bool.and_eq_true, decide_eq_true_eq, Option.isNone_iff_eq_none] at inFile
    refine ⟨files, ran, fun solid => ?_⟩
    have written := (solid file isScratch).solid index inFile.1
    rw [inFile.2] at written
    cases written
  exact ⟨hole manyOnes overtaken 0 (by decide +kernel),
    hole fewOnes smallOvertaken 1 (by decide +kernel)⟩

end Oryxis

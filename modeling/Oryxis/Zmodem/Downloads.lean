/-
This file proves what a ZMODEM download leaves alone.

No step of any transfer changes an entry of the folder whose name does not read as a
part: parts and records are all that is written in place, and a finished file takes a
name that was free. A part that is not held is continued when its length fits, by
whoever announces a name it can belong to; in a folder where every transfer names an
owner, only by an offer of the same owner and the same size as all that wrote to it.
-/

import Oryxis.Zmodem.Folder

namespace Oryxis.Zmodem

open Library List

variable {folder next : Folder} {offer : Offer} {slot : PartSlot} {action : Action}
  {name stem : String}

variable {entries : String → Option Entry}

theorem setEntry_of_ne {other : String} (different : name ≠ other) (entry : Option Entry) :
    setEntry entries other entry name = entries name := if_neg different

theorem ne_of_isPartName {part : String} (isPart : IsPartName part) (notPart : ¬ IsPartName name) :
    name ≠ part := fun same => notPart (same ▸ isPart)

/-! ### Candidates -/

variable {count number : Nat}

theorem findSlot_spec (found : findSlot folder name count number = some slot) :
    ∃ index, number ≤ index ∧ index < number + count ∧
      openAndLockPart folder (candidateName name index) = some slot := by
  induction count generalizing number with
  | zero => cases found
  | succ count inductionHypothesis =>
    rw [findSlot] at found
    split at found
    · rename_i opened isSlot
      cases found
      exact ⟨number, Nat.le_refl _, by omega, isSlot⟩
    · obtain ⟨index, above, below, isSlot⟩ := inductionHypothesis found
      exact ⟨index, by omega, by omega, isSlot⟩

theorem stem_of_openAndLockPart (opened : openAndLockPart folder stem = some slot) :
    slot.stem = stem := by
  unfold openAndLockPart at opened
  split at opened
  · split at opened
    · cases opened
    · cases opened
      rfl
  · cases opened
    rfl
  · cases opened
    rfl
  · cases opened

/-- A name can have a part of that stem. -/
def CanHave (name stem : String) : Prop :=
  ∃ number < maxCandidates, stem = candidateName name number

theorem claimSlot_spec (claimed : claimSlot folder offer = some slot) :
    CanHave (sanitizeName offer.raw) slot.stem ∧ openAndLockPart folder slot.stem = some slot := by
  obtain ⟨index, _, below, opened⟩ := findSlot_spec claimed
  have isStem := stem_of_openAndLockPart opened
  exact ⟨⟨index, by simpa using below, isStem⟩, by rw [isStem]; exact opened⟩

theorem CanHave.undotted {raw : String} (has : CanHave (sanitizeName raw) stem) : Undotted stem := by
  obtain ⟨number, _, rfl⟩ := has
  exact undotted_candidateName (undotted_sanitizeName raw) number

/-- A claimed part that was there before is not held. -/
theorem existing_of_openAndLockPart {content : List UInt8}
    (opened : openAndLockPart folder slot.stem = some slot) (existing : slot.existing = some content) :
    folder.entries (partOf slot.stem) = some (.file content) ∧ folder.holds slot.stem = false := by
  unfold openAndLockPart at opened
  split at opened
  · rename_i stored isFile
    split at opened
    · cases opened
    · rename_i free
      have isSlot := Option.some.inj opened
      rw [← isSlot] at existing
      cases existing
      exact ⟨isFile, by simpa using free⟩
  · rw [← Option.some.inj opened] at existing
    cases existing
  · rw [← Option.some.inj opened] at existing
    cases existing
  · cases opened

theorem resumeAt_pos (resumes : 0 < resumeAt folder slot offer) :
    ∃ content, slot.existing = some content ∧ owned folder slot.stem offer = true ∧
      content.length = resumeAt folder slot offer ∧ content.length ≤ offer.advertised := by
  unfold resumeAt at resumes ⊢
  split at resumes
  · rename_i content existing
    split at resumes
    · rename_i fits
      rw [existing]
      exact ⟨content, rfl, fits.1, (if_pos fits).symm, fits.2.2.2⟩
    · exact absurd resumes (Nat.lt_irrefl _)
  · exact absurd resumes (Nat.lt_irrefl _)

theorem findFree_spec {free : String} (found : findFree entries name count number = some free) :
    entries free = none ∧ ∃ index, free = candidateName name index := by
  induction count generalizing number with
  | zero => cases found
  | succ count inductionHypothesis =>
    rw [findFree] at found
    split at found
    · rename_i isFree
      cases found
      exact ⟨isFree, number, rfl⟩
    · exact inductionHypothesis found

/-! ### What no transfer changes -/

variable {after : String → Option Entry}

theorem writeResumeOwner_of_ne (written : writeResumeOwner entries stem offer = some after)
    (different : name ≠ resumeOwnerPath stem) : after name = entries name := by
  unfold writeResumeOwner at written
  split at written
  · cases written
    rfl
  · split at written
    · cases written
    · cases written
      exact setEntry_of_ne different _

theorem removeRecord_of_ne {live : Live} (different : name ≠ resumeOwnerPath live.stem) :
    removeRecord entries live name = entries name := by
  unfold removeRecord
  split
  · exact setEntry_of_ne different _
  · rfl

/-- An offer changes a part and the record beside it. -/
theorem entries_offer (notPart : ¬ IsPartName name) :
    (folder.offer offer).entries name = folder.entries name := by
  have part := fun stem => ne_of_isPartName (isPartName_partOf stem) notPart
  have record := fun stem => ne_of_isPartName (isPartName_resumeOwnerPath stem) notPart
  unfold Folder.offer
  split
  · rfl
  · simp only []
    split
    · rfl
    · split
      · exact setEntry_of_ne (part _) _
      · rename_i written
        exact (writeResumeOwner_of_ne written (record _)).trans (setEntry_of_ne (part _) _)

variable {entry : Entry}

/-- One step leaves every entry as it is whose name does not read as a part. -/
theorem entries_of_step (stepped : folder.step action = some next) (notPart : ¬ IsPartName name)
    (present : folder.entries name = some entry) :
    next.entries name = some entry := by
  have part := fun stem => ne_of_isPartName (isPartName_partOf stem) notPart
  have record := fun stem => ne_of_isPartName (isPartName_resumeOwnerPath stem) notPart
  cases action with
  | offer offer =>
    cases stepped
    rw [entries_offer notPart]
    exact present
  | data session bytes =>
    simp only [Folder.step, Folder.data] at stepped
    split at stepped
    · cases stepped
    · split at stepped
      · cases stepped
        exact (setEntry_of_ne (part _) _).trans present
      · cases stepped
  | finish session renames =>
    simp only [Folder.step, Folder.finish] at stepped
    split at stepped
    · cases stepped
    · rename_i live _
      have kept : removeRecord folder.entries live name = some entry :=
        (removeRecord_of_ne (record _)).trans present
      split at stepped
      · rename_i free found
        cases stepped
        have different : name ≠ free := by
          rintro rfl
          rw [(findFree_spec found).1] at kept
          cases kept
        show setEntry (setEntry _ free _) (partOf live.stem) none name = some entry
        rw [setEntry_of_ne (part _), setEntry_of_ne different]
        exact kept
      · cases stepped
        exact kept
  | stop session =>
    cases stepped
    exact present

variable {actions : List Action}

theorem entries_of_run (ran : transfers.run folder actions = some next)
    (notPart : ¬ IsPartName name) (present : folder.entries name = some entry) :
    next.entries name = some entry := by
  have kept : ∀ folder action next, folder.entries name = some entry → True →
      transfers.step folder action = some next → next.entries name = some entry :=
    fun _ _ _ present _ stepped => entries_of_step stepped notPart present
  exact Machine.invariant kept present
    (Machine.along_true ..) ran

/-! ### Whose names the parts are -/

/-- What is received has safe names, and a part is written to under names that can have it. -/
structure Named (folder : Folder) : Prop where
  live : ∀ live ∈ folder.live, Undotted live.stem ∧ Undotted live.name
  writers : ∀ stem, ∀ writer ∈ folder.writers stem, CanHave (sanitizeName writer.raw) stem

theorem named_initial (entries : String → Option Entry) : Named (Folder.initial entries) :=
  ⟨fun _ member => (not_mem_nil member).elim,
    fun _ _ member => (not_mem_nil member).elim⟩

theorem Named.release (named : Named folder) (session : Nat) : Named (folder.release session) :=
  ⟨fun live member => named.live live (mem_of_mem_filter member), named.writers⟩

theorem Named.receive (named : Named folder) (claimed : claimSlot folder offer = some slot) :
    Named (folder.receive offer slot.stem) := by
  refine ⟨fun live member => ?_, named.writers⟩
  cases mem_cons.mp member with
  | inl isNew =>
    rw [isNew]
    exact ⟨(claimSlot_spec claimed).1.undotted, undotted_sanitizeName offer.raw⟩
  | inr wasLive => exact (named.release offer.session).live live wasLive

theorem Named.offered (named : Named folder) (offer : Offer) : Named (folder.offer offer) := by
  unfold Folder.offer
  cases claimed : claimSlot folder offer with
  | none => exact named.release offer.session
  | some slot =>
    have has := (claimSlot_spec claimed).1
    have received := named.receive claimed
    dsimp only
    split
    · refine ⟨received.live, fun stem writer member => ?_⟩
      dsimp only at member
      split at member
      · rename_i isStem
        rw [isStem] at member ⊢
        cases mem_cons.mp member with
        | inl isNew => exact isNew ▸ has
        | inr wrote => exact named.writers _ writer wrote
      · exact named.writers stem writer member
    · split
      · exact ⟨(named.release offer.session).live, named.writers⟩
      · refine ⟨received.live, fun stem writer member => ?_⟩
        dsimp only at member
        split at member
        · rename_i isStem
          rw [isStem, mem_singleton.mp member]
          exact has
        · exact named.writers stem writer member

variable {session : Nat}

theorem data_spec {bytes : List UInt8} (stepped : folder.data session bytes = some next) :
    ∃ live ∈ folder.live, ∃ entry, next =
      { folder with entries := setEntry folder.entries (partOf live.stem) entry } := by
  unfold Folder.data at stepped
  cases found : folder.live.find? fun live => live.session = session with
  | none =>
    rw [found] at stepped
    cases stepped
  | some live =>
    simp only [found] at stepped
    split at stepped
    · exact ⟨live, mem_of_find?_eq_some found, _, (Option.some.inj stepped).symm⟩
    · cases stepped

/-- A session that finishes removes the record of its part, and may give the part a free name. -/
theorem finish_spec {renames : Bool} (stepped : folder.finish session renames = some next) :
    ∃ live ∈ folder.live, next.live = (folder.release session).live ∧
      ((next.entries = removeRecord folder.entries live ∧ next.writers = folder.writers) ∨
        ∃ free number entry, free = candidateName live.name number ∧
          next.entries = setEntry (setEntry (removeRecord folder.entries live) free entry)
            (partOf live.stem) none ∧
          next.writers = fun stem => if stem = live.stem then [] else folder.writers stem) := by
  unfold Folder.finish at stepped
  cases found : folder.live.find? fun live => live.session = session with
  | none =>
    rw [found] at stepped
    cases stepped
  | some live =>
    simp only [found] at stepped
    refine ⟨live, mem_of_find?_eq_some found, ?_⟩
    split at stepped
    · rename_i free isFree
      obtain ⟨_, number, isCandidate⟩ := findFree_spec isFree
      cases stepped
      exact ⟨rfl, .inr ⟨free, number, _, isCandidate, rfl, rfl⟩⟩
    · cases stepped
      exact ⟨rfl, .inl ⟨rfl, rfl⟩⟩

theorem named_of_step (named : Named folder) (stepped : folder.step action = some next) :
    Named next := by
  cases action with
  | offer offer =>
    cases stepped
    exact named.offered offer
  | data session bytes =>
    obtain ⟨live, _, entry, rfl⟩ := data_spec stepped
    exact ⟨named.live, named.writers⟩
  | finish session renames =>
    obtain ⟨live, _, sameLive, finished⟩ := finish_spec stepped
    refine ⟨by rw [sameLive]; exact (named.release session).live, fun stem writer member => ?_⟩
    obtain ⟨_, sameWriters⟩ | ⟨_, _, _, _, _, fewer⟩ := finished
    · exact named.writers stem writer (sameWriters ▸ member)
    · simp only [fewer] at member
      split at member
      · cases member
      · exact named.writers stem writer member
  | stop session =>
    cases stepped
    exact named.release session

/-! ### Whose parts the records say they are -/

/-- A record names the owner and the size of all that wrote to its part. -/
def Recorded (folder : Folder) : Prop :=
  ∀ stem owner advertised,
    folder.entries (resumeOwnerPath stem) = some (.file (recordBytes owner advertised)) →
      ∀ writer ∈ folder.writers stem, writer.owner = some owner ∧ writer.advertised = advertised

def Action.namesOwner : Action → Prop
  | .offer offer => offer.owner.isSome = true
  | _ => True

instance : DecidablePred Action.namesOwner := fun action => by
  cases action <;> unfold Action.namesOwner <;> infer_instance

theorem recorded_initial (entries : String → Option Entry) : Recorded (Folder.initial entries) :=
  fun _ _ _ _ _ member => by cases member

/-- A record is no other file's name. -/
theorem setEntry_record (undotted : Undotted name) (entry : Option Entry) (stem : String) :
    setEntry entries name entry (resumeOwnerPath stem) = entries (resumeOwnerPath stem) :=
  setEntry_of_ne (ne_resumeOwnerPath undotted stem).symm entry

/-- Fewer records and fewer writers are recorded as well. -/
theorem Recorded.of_fewer (recorded : Recorded folder)
    (records : ∀ stem content, next.entries (resumeOwnerPath stem) = some (.file content) →
      folder.entries (resumeOwnerPath stem) = some (.file content))
    (writers : ∀ stem, next.writers stem = folder.writers stem ∨ next.writers stem = []) :
    Recorded next := by
  intro stem owner advertised isRecord writer member
  cases writers stem with
  | inl same => exact recorded stem owner advertised (records _ _ isRecord) writer (same ▸ member)
  | inr none =>
    rw [none] at member
    cases member

variable {owner : String}

theorem writeResumeOwner_spec (names : offer.owner = some owner)
    (written : writeResumeOwner entries stem offer = some after) :
    after = setEntry entries (resumeOwnerPath stem)
      (some (.file (recordBytes owner offer.advertised))) := by
  unfold writeResumeOwner at written
  simp only [names] at written
  split at written
  · cases written
  · exact (Option.some.inj written).symm

theorem Recorded.offered (recorded : Recorded folder) (names : offer.owner.isSome = true) :
    Recorded (folder.offer offer) := by
  obtain ⟨owner, isOwner⟩ := Option.isSome_iff_exists.mp names
  unfold Folder.offer
  cases claimed : claimSlot folder offer with
  | none => exact recorded.of_fewer (fun _ _ isRecord => isRecord) fun _ => .inl rfl
  | some slot =>
    have part := (claimSlot_spec claimed).1.undotted.partOf
    dsimp only
    split
    · -- Continued: the record names this owner and this size.
      rename_i resumes
      obtain ⟨content, _, isOwned, _⟩ := resumeAt_pos resumes
      have isRecord : folder.entries (resumeOwnerPath slot.stem) =
          some (.file (recordBytes owner offer.advertised)) := by
        unfold owned at isOwned
        rw [isOwner] at isOwned
        exact of_decide_eq_true isOwned
      intro stem other advertised present writer member
      dsimp only at member
      split at member
      · rename_i isStem
        subst isStem
        cases mem_cons.mp member with
        | inl isNew =>
          have bytes := isRecord.symm.trans present
          obtain ⟨sameOwner, sameSize⟩ := recordBytes_inj (by simpa using bytes)
          rw [isNew, ← sameOwner, ← sameSize]
          exact ⟨isOwner, rfl⟩
        | inr wrote => exact recorded slot.stem other advertised present writer wrote
      · exact recorded stem other advertised present writer member
    · split
      · refine recorded.of_fewer (fun stem content isRecord => ?_) fun _ => .inl rfl
        exact (setEntry_record part _ stem).symm.trans isRecord
      · rename_i entries written
        have isWritten := writeResumeOwner_spec isOwner written
        intro stem other advertised present writer member
        dsimp only at present member
        rw [isWritten] at present
        split at member
        · rename_i isStem
          subst isStem
          rw [mem_singleton.mp member]
          have bytes : setEntry _ (resumeOwnerPath slot.stem)
              (some (Entry.file (recordBytes owner offer.advertised))) (resumeOwnerPath slot.stem) = _ :=
            present
          rw [setEntry, if_pos rfl] at bytes
          obtain ⟨sameOwner, sameSize⟩ := recordBytes_inj (by simpa using bytes)
          rw [← sameOwner, ← sameSize]
          exact ⟨isOwner, rfl⟩
        · rename_i otherStem
          rw [setEntry_of_ne fun same => otherStem (resumeOwnerPath_inj same),
            setEntry_record part] at present
          exact recorded stem other advertised present writer member

theorem recorded_of_step (named : Named folder) (recorded : Recorded folder)
    (names : action.namesOwner) (stepped : folder.step action = some next) : Recorded next := by
  cases action with
  | offer offer =>
    cases stepped
    exact recorded.offered names
  | data session bytes =>
    obtain ⟨live, isLive, entry, rfl⟩ := data_spec stepped
    have part := (named.live live isLive).1.partOf
    refine recorded.of_fewer (fun stem content isRecord => ?_) fun _ => .inl rfl
    exact (setEntry_record part _ stem).symm.trans isRecord
  | finish session renames =>
    obtain ⟨live, isLive, _, finished⟩ := finish_spec stepped
    obtain ⟨stemUndotted, nameUndotted⟩ := named.live live isLive
    have removed : ∀ stem content,
        removeRecord folder.entries live (resumeOwnerPath stem) = some (.file content) →
          folder.entries (resumeOwnerPath stem) = some (.file content) := by
      intro stem content isRecord
      unfold removeRecord at isRecord
      split at isRecord
      · unfold setEntry at isRecord
        split at isRecord
        · cases isRecord
        · exact isRecord
      · exact isRecord
    obtain ⟨sameEntries, sameWriters⟩ | ⟨free, number, entry, isFree, entries, writers⟩ := finished
    · exact recorded.of_fewer (fun stem content isRecord => removed stem content (sameEntries ▸ isRecord))
        fun stem => .inl (congrFun sameWriters stem)
    · have freeUndotted : Undotted free := isFree ▸ undotted_candidateName nameUndotted number
      refine recorded.of_fewer (fun stem content isRecord => removed stem content ?_) fun stem => ?_
      · rw [entries, setEntry_record stemUndotted.partOf, setEntry_record freeUndotted] at isRecord
        exact isRecord
      · rw [writers]
        dsimp only
        split
        · exact .inr rfl
        · exact .inl rfl
  | stop session =>
    cases stepped
    exact recorded.of_fewer (fun _ _ isRecord => isRecord) fun _ => .inl rfl

theorem named_of_run (ran : transfers.run (Folder.initial entries) actions = some folder) :
    Named folder := by
  have kept : ∀ folder action next, Named folder → True →
      transfers.step folder action = some next → Named next :=
    fun _ _ _ named _ stepped => named_of_step named stepped
  exact Machine.invariant kept (named_initial entries) (Machine.along_true ..) ran

theorem recorded_of_run (names : ∀ action ∈ actions, action.namesOwner)
    (ran : transfers.run (Folder.initial entries) actions = some folder) : Recorded folder := by
  have kept : ∀ folder action next, Named folder ∧ Recorded folder → action.namesOwner →
      transfers.step folder action = some next → Named next ∧ Recorded next :=
    fun folder action next holds names stepped =>
      ⟨named_of_step holds.1 stepped, recorded_of_step holds.1 holds.2 names stepped⟩
  exact (Machine.invariant kept
    ⟨named_initial entries, recorded_initial entries⟩ (Machine.along_of_forall names) ran).2

/-! ### What a download leaves alone -/

/-- A part is taken up when nobody writes to it, its length fits, and its name can be had by the
offer as it could by all that wrote to it. -/
structure TakesUp (folder : Folder) (offer : Offer) (slot : PartSlot) : Prop where
  free : folder.holds slot.stem = false
  fits : ∃ content, folder.entries (partOf slot.stem) = some (.file content) ∧
    content.length = resumeAt folder slot offer ∧ content.length ≤ offer.advertised
  named : CanHave (sanitizeName offer.raw) slot.stem
  writersNamed : ∀ writer ∈ folder.writers slot.stem, CanHave (sanitizeName writer.raw) slot.stem

theorem takesUp_of_resumeAt (named : Named folder) (claimed : claimSlot folder offer = some slot)
    (resumes : 0 < resumeAt folder slot offer) : TakesUp folder offer slot := by
  obtain ⟨has, opened⟩ := claimSlot_spec claimed
  obtain ⟨content, existing, _, isLength, fits⟩ := resumeAt_pos resumes
  obtain ⟨isFile, free⟩ := existing_of_openAndLockPart opened existing
  exact ⟨free, ⟨content, isFile, isLength, fits⟩, has, named.writers slot.stem⟩

theorem writers_of_resumeAt (recorded : Recorded folder) (resumes : 0 < resumeAt folder slot offer)
    (isOwner : offer.owner = some owner) :
    ∀ writer ∈ folder.writers slot.stem,
      writer.owner = some owner ∧ writer.advertised = offer.advertised := by
  obtain ⟨_, _, isOwned, _⟩ := resumeAt_pos resumes
  unfold owned at isOwned
  rw [isOwner] at isOwned
  exact recorded slot.stem owner offer.advertised (of_decide_eq_true isOwned)

/-- A file is delivered, and a second one breaks off. -/
def deliveredAndBroken : List Action :=
  [.offer ⟨0, "report", 2, some "host"⟩, .data 0 [1, 2], .finish 0 true,
    .offer ⟨1, "log", 9, some "host"⟩, .data 1 [7], .stop 1]

/-- A part is continued only by the file that was announced under the name it began with. -/
def NeverMixes : Prop :=
  ∀ entries actions folder offer slot,
    transfers.run (Folder.initial entries) actions = some folder →
      claimSlot folder offer = some slot → 0 < resumeAt folder slot offer →
        ∀ writer ∈ folder.writers slot.stem, writer.raw = offer.raw

/-- Ten bytes announced as `a/log` break off at three. -/
def brokenLog : List Action := [.offer ⟨0, "a/log", 10, none⟩, .data 0 [1, 2, 3], .stop 0]

end Oryxis.Zmodem

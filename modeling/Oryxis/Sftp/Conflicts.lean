/-
This file proves when a transfer is over with every item of its queue accounted for.

A worker whose file's name is taken reports a conflict; its item is parked in the
transfer, which pauses, and the answer to the question starts the item once more or
skips it. The place where an item is parked is one for all slots, and so is the
question: workers that were under way when the first conflict came report theirs as
well, and a second item takes the place of the first, which nobody has any more. And a
slot is freed by the message that names it: the one a skip sends may come after another
item was started there. Where neither happens, and no worker of an earlier transfer
disturbs this one, an item that left the queue is with a worker, parked, done or
skipped, and only once: a transfer that is over has done or skipped each.
-/

import Mathlib.Data.List.Perm.Basic
import Oryxis.Sftp.Moves

namespace Oryxis.Transfer

open Library List

variable {Client : Type*}

/-! ### The work on an item whose name may be taken -/

/-- What the disks and the hosts say to the requests of one item: whether a directory can be made or
is there, the size of what has the item's name, when it is looked for and when a question was
answered, the size of the source, and how a free name and the writing turn out. -/
structure ItemAnswers where
  createDir : Except String Unit
  listDir : Except String Unit
  found : Except String (Option Nat)
  sourceSize : Except String Nat
  foundAgain : Except String (Option Nat)
  uniqueName : Except String Unit
  written : Except String Unit
  relayed : RelayAnswers

def applyOverwriteForItem (answers : ItemAnswers) (action : OverwriteAction) :
    Except TransferError Unit :=
  match action with
  | .cancel => .ok ()
  | .replace | .resume => answers.written.mapError .host
  | .replaceIfDifferent => do
    let remoteSize ← answers.foundAgain.mapError .host
    if answers.sourceSize.toOption.getD 0 = remoteSize.getD 0 then .ok ()
    else answers.written.mapError .host
  | .duplicate => do
    answers.uniqueName.mapError .host
    answers.written.mapError .host

def applyOverwriteForDownloadItem (answers : ItemAnswers) (item : TransferItem)
    (action : OverwriteAction) : Except TransferError Unit :=
  match action with
  | .cancel => .ok ()
  | .resume => .error (.host "resume_not_for_downloads")
  | .replace | .duplicate => answers.written.mapError .host
  | .replaceIfDifferent => do
    let remoteSize ← match item.size with
      | some size => .ok size
      | none => answers.sourceSize.mapError .host
    if (answers.foundAgain.toOption.bind id).getD 0 = remoteSize then .ok ()
    else answers.written.mapError .host

inductive TransferStepOutcome
  | done
  | conflict (prompt : OverwritePrompt) (item : TransferItem)

def doUploadItem (answers : ItemAnswers) (item : TransferItem)
    (overwriteDefault : Option OverwriteAction) : Except TransferError TransferStepOutcome :=
  if item.isDir then
    match answers.createDir, answers.listDir with
    | .error error, .error _ => .error (.host error)
    | _, _ => .ok .done
  else
    match answers.found with
    | .error error => .error (.host error)
    | .ok none => (answers.written.mapError .host).map fun _ => .done
    | .ok (some _) =>
      match overwriteDefault with
      | some action => (applyOverwriteForItem answers action).map fun _ => .done
      | none => .ok (.conflict ⟨.upload, false, none⟩ item)

def doDownloadItem (answers : ItemAnswers) (item : TransferItem)
    (overwriteDefault : Option OverwriteAction) : Except TransferError TransferStepOutcome :=
  if item.isDir then (answers.createDir.mapError .host).map fun _ => .done
  else
    match answers.found.toOption.bind id with
    | none => (answers.written.mapError .host).map fun _ => .done
    | some _ =>
      match overwriteDefault with
      | some action => (applyOverwriteForDownloadItem answers item action).map fun _ => .done
      | none => .ok (.conflict ⟨.download, false, none⟩ item)

def doLocalDuplicateItem (answers : ItemAnswers) (item : TransferItem) :
    Except TransferError Unit :=
  if item.isDir then answers.createDir.mapError .host else answers.written.mapError .host

def Outcome.ofStep : Except TransferError TransferStepOutcome → Outcome
  | .ok .done => .done
  | .ok (.conflict prompt item) => .conflict prompt item
  | .error error => .failed error

def Job.item : Job Client → TransferItem
  | .upload _ item _ _ | .download _ item _ _ | .relay _ _ item _ | .duplicateLocal item
  | .applyOverwrite _ _ item _ => item

/-- How a job comes out. -/
def Job.work (answers : ItemAnswers) : Job Client → Outcome
  | .upload _ item overwriteDefault _ => .ofStep (doUploadItem answers item overwriteDefault)
  | .download _ item overwriteDefault _ => .ofStep (doDownloadItem answers item overwriteDefault)
  | .relay _ _ _ _ => .answered answers.relayed
  | .duplicateLocal item => .ofStep ((doLocalDuplicateItem answers item).map fun _ => .done)
  | .applyOverwrite .upload _ _ action =>
    .ofStep ((applyOverwriteForItem answers action).map fun _ => .done)
  | .applyOverwrite .download _ item action =>
    .ofStep ((applyOverwriteForDownloadItem answers item action).map fun _ => .done)

/-! ### Runs that are watched -/

/-- A transfer that was over: what it was launched with, what its workers had done and what answers
had skipped by then, and the items still with a worker. -/
structure Final where
  launched : List TransferItem
  completed : List TransferItem
  skipped : List TransferItem
  running : List TransferItem

/-- An owner, and for each transfer, by its number, what its workers have done and what answers have
skipped, with the transfers that were over. -/
structure Watched (Client : Type*) where
  owner : Owner Client
  completed : List (Nat × TransferItem)
  skipped : List (Nat × TransferItem)
  finals : List Final

def Watched.initial (sidebar : Bool) : Watched Client := ⟨.initial sidebar, [], [], []⟩

/-- What was noted of a transfer. -/
def ofTransfer (transfer : Nat) (noted : List (Nat × TransferItem)) : List TransferItem :=
  (noted.filter fun one => one.1 = transfer).map Prod.snd

/-- The tasks that are to report on the owner's transfer. -/
def Owner.reporting (owner : Owner Client) : List (Task Client) := owner.reports.map Started.task

/-- The item that is with a worker, or on the way to be parked. -/
def Task.item : Task Client → Option TransferItem
  | .perform _ job => some job.item
  | .done (.conflict _ item _) => some item
  | .done .next | .done (.itemDone _) | .done (.error _ _) => none

/-- The slot a task is to report on. -/
def Task.slot : Task Client → Option Nat
  | .perform slot _ => some slot
  | .done (.itemDone slot) | .done (.conflict _ _ slot) | .done (.error _ slot) => some slot
  | .done .next => none

/-- The items an answer skips. -/
def skippedBy (owner : Owner Client) : Action Client → List (Nat × TransferItem)
  | .resolveOverwrite .cancel _ =>
    match owner.overwritePrompt, owner.state with
    | some prompt, some transfer =>
      if prompt.dropUploadPane.isSome then []
      else
        match transfer.pendingConflictItem with
        | none => []
        | some item =>
          (item :: if prompt.applyToAll then transfer.queue else []).map (owner.transfer, ·)
    | _, _ => []
  | _ => []

/-- The transfer that is over when the runner is asked for the next item. -/
def Watched.finalsBy (watched : Watched Client) : Action Client → List Final
  | .deliver index =>
    match watched.owner.tasks[index]?, watched.owner.state with
    | some ⟨_, .done .next⟩, some transfer =>
      match transfer.next with
      | .finalize _ _ => [⟨watched.owner.launched,
          ofTransfer watched.owner.transfer watched.completed,
          ofTransfer watched.owner.transfer watched.skipped,
          watched.owner.reporting.filterMap Task.item⟩]
      | .wait | .start _ _ => []
    | _, _ => []
  | _ => []

/-- The item of a job that reports it done. -/
def completedBy (transfer slot : Nat) (job : Job Client) (answers : ItemAnswers) :
    List (Nat × TransferItem) :=
  match job.report slot (job.work answers) with
  | some (.itemDone _) => [(transfer, job.item)]
  | _ => []

inductive WatchedAction (Client : Type*)
  | act (action : Action Client)
  | finish (index : Nat) (answers : ItemAnswers)

/-- The runner, with workers that come out as the disks and hosts have it. -/
def watching : Machine (Watched Client) (WatchedAction Client) where
  step watched
    | .act (.finish _ _) => none
    | .act action => (runner.step watched.owner action).map fun next =>
      ⟨next, watched.completed, watched.skipped ++ skippedBy watched.owner action,
        watched.finals ++ watched.finalsBy action⟩
    | .finish index answers =>
      match watched.owner.tasks[index]? with
      | some ⟨transfer, .perform slot job⟩ =>
        (runner.step watched.owner (.finish index (job.work answers))).map fun next =>
          { watched with
            owner := next
            completed := watched.completed ++ completedBy transfer slot job answers }
      | _ => none

/-! ### What should hold -/

/-- Every item of the queue was done by a worker once or skipped by an answer, and no worker is at
one still. -/
structure Final.Sound (final : Final) : Prop where
  accounted : (final.completed ++ final.skipped).Perm final.launched
  idle : final.running = []

def LosesNothing (watched : Watched Client) : Prop := ∀ final ∈ watched.finals, final.Sound

/-- A message that does the owner's transfer no harm: none of an earlier transfer parks an item in it
or frees a slot of it that is busy; none parks an item where one is parked; and none has an item
started in a slot on which a task is still to report. -/
def Started.Untroubled (owner : Owner Client) (transfer : TransferState Client)
    (started : Started Client) : Prop :=
  (started.transfer ≠ owner.transfer → started.task.Harmless transfer) ∧
    match started.task with
    | .done (.conflict _ _ _) => transfer.pendingConflictItem = none
    | .done .next =>
      match transfer.next with
      | .start _ task => ∀ other ∈ owner.reporting, other.slot ≠ task.slot
      | .wait | .finalize _ _ => True
    | .done (.itemDone _) | .done (.error _ _) | .perform _ _ => True

def Untroubled (watched : Watched Client) : WatchedAction Client → Prop
  | .act (.deliver index) => ∀ started ∈ watched.owner.tasks[index]?,
      ∀ transfer ∈ watched.owner.state, started.Untroubled watched.owner transfer
  | _ => True

/-! ### The balance of a transfer -/

/-- The slot a task keeps busy. -/
def Task.occupies : Task Client → Option Nat
  | .perform slot _ => some slot
  | .done (.conflict _ _ slot) | .done (.error _ slot) => some slot
  | .done .next | .done (.itemDone _) => none

/-- The slot a task may come to park an item from. -/
def Task.mayPark : Task Client → Option Nat
  | .perform slot (.upload _ _ _ _) | .perform slot (.download _ _ _ _) => some slot
  | .done (.conflict _ _ slot) => some slot
  | .perform _ (.relay _ _ _ _) | .perform _ (.duplicateLocal _)
  | .perform _ (.applyOverwrite _ _ _ _) => none
  | .done .next | .done (.itemDone _) | .done (.error _ _) => none

def Task.isFailed : Task Client → Bool
  | .done (.error _ _) => true
  | .done .next | .done (.itemDone _) | .done (.conflict _ _ _) | .perform _ _ => false

/-- An item is in the queue, parked, with a task, done, skipped or failed, and once. No two tasks
are to report on one slot; one that has an item keeps its slot busy. -/
structure Balanced (transfer : TransferState Client) (launched completed skipped : List TransferItem)
    (tasks : List (Task Client)) : Prop where
  distinct : (tasks.filterMap Task.slot).Nodup
  busy : ∀ task ∈ tasks, ∀ slot ∈ task.occupies, transfer.busySlots[slot]? = some true
  staffed : ∀ task ∈ tasks, ∀ slot ∈ task.mayPark, transfer.clients[slot]?.isSome
  parked : ∀ item ∈ transfer.pendingConflictItem, transfer.paused = true ∧
    ∃ slot, transfer.pendingConflictSlot = some slot ∧ slot < transfer.busySlots.length ∧
      transfer.clients[slot]?.isSome ∧ slot ∉ tasks.filterMap Task.slot
  balance : ∃ failed : List TransferItem, failed.length = tasks.countP Task.isFailed ∧
    ∀ item, launched.count item = completed.count item + skipped.count item +
      transfer.queue.count item + transfer.pendingConflictItem.toList.count item +
      (tasks.filterMap Task.item).count item + failed.count item

theorem Balanced.perm {transfer : TransferState Client}
    {launched completed skipped : List TransferItem} {tasks others : List (Task Client)}
    (balanced : Balanced transfer launched completed skipped tasks) (same : tasks.Perm others) :
    Balanced transfer launched completed skipped others := by
  obtain ⟨failed, errors, counts⟩ := balanced.balance
  refine ⟨(same.filterMap Task.slot).nodup_iff.mp balanced.distinct,
    fun task member => balanced.busy task (same.mem_iff.mpr member),
    fun task member => balanced.staffed task (same.mem_iff.mpr member),
    fun item isParked => ?_, failed, errors.trans (same.countP_eq _), fun item => ?_⟩
  · obtain ⟨paused, slot, isSlot, within, staffed, free⟩ := balanced.parked item isParked
    exact ⟨paused, slot, isSlot, within, staffed, fun taken =>
      free ((same.filterMap Task.slot).mem_iff.mpr taken)⟩
  · rw [counts item, (same.filterMap Task.item).count_eq]

/-- A transfer that is over has nothing but what is done and what is skipped. -/
theorem Balanced.sound {transfer : TransferState Client}
    {launched completed skipped : List TransferItem} {tasks : List (Task Client)}
    (balanced : Balanced transfer launched completed skipped tasks) (empty : transfer.queue = [])
    (idle : transfer.busySlots.all (!·)) (running : transfer.paused = false) :
    Final.Sound ⟨launched, completed, skipped, tasks.filterMap Task.item⟩ := by
  obtain ⟨failed, errors, counts⟩ := balanced.balance
  have unparked : transfer.pendingConflictItem = none := by
    cases parked : transfer.pendingConflictItem with
    | none => rfl
    | some item =>
      have paused := (balanced.parked item parked).1
      rw [running] at paused
      cases paused
  have unoccupied : ∀ task ∈ tasks, task.occupies = none := fun task member => by
    cases occupies : task.occupies with
    | none => rfl
    | some slot =>
      have busy := balanced.busy task member slot occupies
      have free := all_eq_true.mp idle true (mem_of_getElem? busy)
      cases free
  have idleTasks : tasks.filterMap Task.item = [] := by
    refine filterMap_eq_nil_iff.mpr fun task member => ?_
    have free := unoccupied task member
    match task with
    | .perform _ _ => cases free
    | .done (.conflict _ _ _) => cases free
    | .done .next | .done (.itemDone _) | .done (.error _ _) => rfl
  have noneFailed : tasks.countP Task.isFailed = 0 := by
    refine countP_eq_zero.mpr fun task member isFailed => ?_
    have free := unoccupied task member
    match task with
    | .done (.error _ _) => cases free
    | .perform _ _ => cases isFailed
    | .done .next | .done (.itemDone _) | .done (.conflict _ _ _) => cases isFailed
  refine ⟨perm_iff_count.mpr fun item => ?_, idleTasks⟩
  have nothing : failed = [] := length_eq_zero_iff.mp (errors.trans noneFailed)
  rw [counts item, empty, unparked, idleTasks, nothing, count_append]
  rfl

/-! ### What keeps the balance -/

section

variable {transfer : TransferState Client} {launched completed skipped : List TransferItem}
  {tasks : List (Task Client)}

theorem balanced_launch (launch : Launch Client) :
    Balanced launch.state launch.queue [] [] [] := by
  have fresh : launch.state.queue = launch.queue ∧ launch.state.pendingConflictItem = none := by
    cases launch with
    | batch kind queue clients slots => exact ⟨rfl, rfl⟩
    | relay queue source dest moveSource => cases moveSource <;> exact ⟨rfl, rfl⟩
  refine ⟨nodup_nil, forall_mem_nil _,
    forall_mem_nil _, fun item isParked => ?_, [], rfl, fun item => ?_⟩
  · rw [fresh.2] at isParked
    cases isParked
  · rw [fresh.1, fresh.2]
    simp

variable {task : Task Client}

/-- The slot of the first task is reported on by no other. -/
theorem Balanced.slot_of_cons
    (balanced : Balanced transfer launched completed skipped (task :: tasks)) {slot : Nat}
    (reports : task.slot = some slot) :
    slot ∉ tasks.filterMap Task.slot ∧ (tasks.filterMap Task.slot).Nodup := by
  have distinct := balanced.distinct
  rw [filterMap_cons_some reports] at distinct
  exact nodup_cons.mp distinct

theorem Task.slot_of_occupies {slot : Nat} (occupies : slot ∈ task.occupies) :
    task.slot = some slot := by
  match task with
  | .perform _ _ => exact occupies
  | .done (.conflict _ _ _) | .done (.error _ _) => exact occupies
  | .done .next | .done (.itemDone _) => cases occupies

/-- A slot that no task reports on can change without a task losing the slot it keeps busy. -/
theorem busy_set {slot : Nat} {value : Bool} (free : slot ∉ tasks.filterMap Task.slot)
    (busy : ∀ task ∈ tasks, ∀ one ∈ task.occupies, transfer.busySlots[one]? = some true) :
    ∀ task ∈ tasks, ∀ one ∈ task.occupies,
      (transfer.busySlots.set slot value)[one]? = some true := by
  intro task member one occupies
  have other : slot ≠ one := fun same => free (mem_filterMap.mpr
    ⟨task, member, same ▸ Task.slot_of_occupies occupies⟩)
  rw [getElem?_set_ne other]
  exact busy task member one occupies

/-- What an item is started with: a job at it in the slot, over the slot's client where its name may
be taken, or an error of the slot. -/
theorem itemTask_cases (transfer : TransferState Client) (slot : Nat) (item : TransferItem) :
    (∃ job : Job Client, job.item = item ∧
        (∀ one ∈ (Task.perform slot job).mayPark, transfer.clients[one]?.isSome) ∧
        transfer.itemTask slot item = .perform slot job) ∨
      ∃ error, transfer.itemTask slot item = .done (.error error slot) := by
  unfold TransferState.itemTask
  cases transfer.kind with
  | duplicateLocal => exact .inl ⟨_, rfl, fun _ none => absurd none (Option.not_mem_none _), rfl⟩
  | upload =>
    cases staffed : transfer.clients[slot]? with
    | none => exact .inr ⟨_, rfl⟩
    | some client =>
      refine .inl ⟨_, rfl, fun one isSlot => ?_, rfl⟩
      cases isSlot
      rw [staffed]
      rfl
  | download =>
    cases staffed : transfer.clients[slot]? with
    | none => exact .inr ⟨_, rfl⟩
    | some client =>
      refine .inl ⟨_, rfl, fun one isSlot => ?_, rfl⟩
      cases isSlot
      rw [staffed]
      rfl
  | relay =>
    cases transfer.clients[slot]? with
    | none => exact .inr ⟨_, rfl⟩
    | some source =>
      cases transfer.destClient with
      | none => exact .inr ⟨_, rfl⟩
      | some dest => exact .inl ⟨_, rfl, fun _ none => absurd none (Option.not_mem_none _), rfl⟩

/-- A worker is started on the next item, in an idle slot. -/
theorem Balanced.start (balanced : Balanced transfer launched completed skipped tasks) {slot : Nat}
    {item : TransferItem} {queue : List TransferItem} (waiting : transfer.queue = item :: queue)
    (idle : transfer.busySlots[slot]? = some false)
    (free : slot ∉ tasks.filterMap Task.slot) (running : transfer.pendingConflictItem = none) :
    Balanced (transfer.startItem slot item queue) launched completed skipped
      ((transfer.startItem slot item queue).itemTask slot item :: tasks) := by
  obtain ⟨failed, errors, counts⟩ := balanced.balance
  have within : slot < transfer.busySlots.length := (List.getElem?_eq_some_iff.mp idle).1
  have taken : (transfer.busySlots.set slot true)[slot]? = some true :=
    getElem?_set_self within
  have others : ∀ task ∈ tasks, ∀ one ∈ task.occupies,
      (transfer.busySlots.set slot true)[one]? = some true := busy_set free balanced.busy
  have unparked : ∀ one, one ∈ transfer.pendingConflictItem → False := fun one isParked => by
    rw [running] at isParked
    cases isParked
  rcases itemTask_cases (transfer.startItem slot item queue) slot item with
    ⟨job, isItem, staffed, isTask⟩ | ⟨error, isTask⟩
  · rw [isTask]
    refine ⟨nodup_cons.mpr ⟨free, balanced.distinct⟩, ?_, ?_,
      fun one isParked => (unparked one isParked).elim, failed, errors, fun one => ?_⟩
    · refine forall_mem_cons.mpr ⟨fun one isSlot => ?_, others⟩
      cases isSlot
      exact taken
    · exact forall_mem_cons.mpr ⟨staffed, balanced.staffed⟩
    · have before := counts one
      rw [waiting, count_cons] at before
      show _ = _ + queue.count one + _ + (job.item :: tasks.filterMap Task.item).count one + _
      rw [isItem, count_cons]
      show _ = _ + _ + transfer.pendingConflictItem.toList.count one + _ + _
      omega
  · rw [isTask]
    refine ⟨nodup_cons.mpr ⟨free, balanced.distinct⟩, ?_, ?_,
      fun one isParked => (unparked one isParked).elim, item :: failed, ?_, fun one => ?_⟩
    · refine forall_mem_cons.mpr ⟨fun one isSlot => ?_, others⟩
      cases isSlot
      exact taken
    · exact forall_mem_cons.mpr ⟨fun _ none => absurd none (Option.not_mem_none _), balanced.staffed⟩
    · rw [countP_cons_of_pos rfl, length_cons, errors]
    · have before := counts one
      rw [waiting, count_cons] at before
      show _ = _ + queue.count one + transfer.pendingConflictItem.toList.count one +
        (tasks.filterMap Task.item).count one + (item :: failed).count one
      rw [count_cons]
      omega

/-- A slot is freed by the message that its item is done. -/
theorem Balanced.itemDone {slot : Nat} (balanced : Balanced transfer launched completed skipped
      (.done (.itemDone slot) :: tasks)) :
    Balanced (transfer.itemDone slot) launched completed skipped tasks := by
  obtain ⟨free, distinct⟩ := balanced.slot_of_cons rfl
  refine ⟨distinct, busy_set free fun task member => balanced.busy task (.tail _ member),
    fun task member => balanced.staffed task (.tail _ member), fun item isParked => ?_, ?_⟩
  · obtain ⟨paused, parkedSlot, isSlot, within, staffed, apart⟩ := balanced.parked item isParked
    refine ⟨paused, parkedSlot, isSlot, ?_, staffed, fun taken =>
      apart (mem_cons_of_mem _ taken)⟩
    show parkedSlot < (transfer.busySlots.set slot false).length
    rw [length_set]
    exact within
  · obtain ⟨failed, errors, counts⟩ := balanced.balance
    exact ⟨failed, errors, counts⟩

/-- A message of another transfer that frees an idle slot. -/
theorem Balanced.itemDone_idle (balanced : Balanced transfer launched completed skipped tasks)
    {slot : Nat} (idle : transfer.busySlots[slot]? ≠ some true) :
    Balanced (transfer.itemDone slot) launched completed skipped tasks := by
  refine ⟨balanced.distinct, fun task member one occupies => ?_, balanced.staffed,
    fun item isParked => ?_, balanced.balance⟩
  · have busy := balanced.busy task member one occupies
    have other : slot ≠ one := fun same => idle (same ▸ busy)
    show (transfer.busySlots.set slot false)[one]? = some true
    rw [getElem?_set_ne other]
    exact busy
  · obtain ⟨paused, parkedSlot, isSlot, within, apart⟩ := balanced.parked item isParked
    refine ⟨paused, parkedSlot, isSlot, ?_, apart⟩
    show parkedSlot < (transfer.busySlots.set slot false).length
    rw [length_set]
    exact within

/-- An item is parked where none is. -/
theorem Balanced.park {prompt : OverwritePrompt} {item : TransferItem} {slot : Nat}
    (balanced : Balanced transfer launched completed skipped
      (.done (.conflict prompt item slot) :: tasks))
    (unparked : transfer.pendingConflictItem = none) :
    Balanced (transfer.park item slot) launched completed skipped tasks := by
  obtain ⟨free, distinct⟩ := balanced.slot_of_cons rfl
  obtain ⟨failed, errors, counts⟩ := balanced.balance
  refine ⟨distinct, busy_set free fun task member => balanced.busy task (.tail _ member),
    fun task member => balanced.staffed task (.tail _ member), fun one isParked => ?_,
    failed, errors, fun one => ?_⟩
  · have busy := balanced.busy _ mem_cons_self slot rfl
    refine ⟨rfl, slot, rfl, ?_, balanced.staffed _ mem_cons_self slot rfl, free⟩
    show slot < (transfer.busySlots.set slot false).length
    rw [length_set]
    exact (List.getElem?_eq_some_iff.mp busy).1
  · have before := counts one
    rw [unparked] at before
    show _ = _ + [item].count one + (tasks.filterMap Task.item).count one + _
    change _ = _ + ([] : List TransferItem).count one +
      (item :: tasks.filterMap Task.item).count one + _ at before
    rw [count_cons, count_nil] at before
    rw [count_cons, count_nil]
    show _ = _ + transfer.queue.count one + _ + _ + _
    omega

variable {job : Job Client}

/-- A worker ends: its item is done, to be parked, or failed. -/
theorem Balanced.finish_done {slot : Nat}
    (balanced : Balanced transfer launched completed skipped (.perform slot job :: tasks)) :
    Balanced transfer launched (completed ++ [job.item]) skipped
      (.done (.itemDone slot) :: tasks) := by
  obtain ⟨failed, errors, counts⟩ := balanced.balance
  refine ⟨balanced.distinct, ?_, ?_, balanced.parked, failed, errors, fun one => ?_⟩
  · exact forall_mem_cons.mpr ⟨fun _ none => absurd none (Option.not_mem_none _),
      (forall_mem_cons.mp balanced.busy).2⟩
  · exact forall_mem_cons.mpr ⟨fun _ none => absurd none (Option.not_mem_none _),
      (forall_mem_cons.mp balanced.staffed).2⟩
  · have before := counts one
    change _ = _ + (job.item :: tasks.filterMap Task.item).count one + _ at before
    rw [count_cons] at before
    show _ = (completed ++ [job.item]).count one + _ + _ + _ +
      (tasks.filterMap Task.item).count one + _
    rw [count_append, count_cons, count_nil]
    omega

theorem Balanced.finish_conflict {slot : Nat}
    (balanced : Balanced transfer launched completed skipped (.perform slot job :: tasks))
    (asks : (Task.perform slot job).mayPark = some slot) (prompt : OverwritePrompt) :
    Balanced transfer launched completed skipped
      (.done (.conflict prompt job.item slot) :: tasks) := by
  refine ⟨balanced.distinct, ?_, ?_, balanced.parked, balanced.balance⟩
  · exact forall_mem_cons.mpr (forall_mem_cons.mp balanced.busy)
  · obtain ⟨staffed, others⟩ := forall_mem_cons.mp balanced.staffed
    refine forall_mem_cons.mpr ⟨fun one isSlot => staffed one ?_, others⟩
    rw [asks]
    exact isSlot

theorem Balanced.finish_error {slot : Nat}
    (balanced : Balanced transfer launched completed skipped (.perform slot job :: tasks))
    (error : TransferError) :
    Balanced transfer launched completed skipped (.done (.error error slot) :: tasks) := by
  obtain ⟨failed, errors, counts⟩ := balanced.balance
  refine ⟨balanced.distinct, ?_, ?_, balanced.parked, job.item :: failed, ?_, fun one => ?_⟩
  · exact forall_mem_cons.mpr (forall_mem_cons.mp balanced.busy)
  · exact forall_mem_cons.mpr ⟨fun _ none => absurd none (Option.not_mem_none _),
      (forall_mem_cons.mp balanced.staffed).2⟩
  · rw [countP_cons_of_pos rfl, length_cons, errors]
    rfl
  · have before := counts one
    change _ = _ + (job.item :: tasks.filterMap Task.item).count one + _ at before
    rw [count_cons] at before
    show _ = _ + (tasks.filterMap Task.item).count one + (job.item :: failed).count one
    rw [count_cons]
    omega

/-- An answer to a question whose item nobody waits for. -/
theorem Balanced.unpark (balanced : Balanced transfer launched completed skipped tasks)
    (unparked : transfer.pendingConflictItem = none) (action : OverwriteAction)
    (applyToAll : Bool) :
    Balanced (transfer.unpark action applyToAll) launched completed skipped tasks := by
  obtain ⟨failed, errors, counts⟩ := balanced.balance
  rw [unparked] at counts
  exact ⟨balanced.distinct, balanced.busy, balanced.staffed, fun _ none => absurd none (Option.not_mem_none _), failed,
    errors, counts⟩

/-- The parked item is skipped, and the rest of the queue with it where that is asked. -/
theorem Balanced.skip (balanced : Balanced transfer launched completed skipped tasks)
    {item : TransferItem} {slot : Nat} (isParked : transfer.pendingConflictItem = some item)
    (isSlot : transfer.pendingConflictSlot = some slot) (applyToAll : Bool) :
    Balanced
      (if applyToAll then { transfer.unpark .cancel applyToAll with queue := [] }
        else transfer.unpark .cancel applyToAll)
      launched completed (skipped ++ (item :: if applyToAll then transfer.queue else []))
      (.done (.itemDone slot) :: tasks) := by
  obtain ⟨failed, errors, counts⟩ := balanced.balance
  obtain ⟨_, parkedSlot, isParkedSlot, _, _, free⟩ := balanced.parked item isParked
  rw [isSlot, Option.some.injEq] at isParkedSlot
  rw [← isParkedSlot] at free
  have distinct : (slot :: tasks.filterMap Task.slot).Nodup :=
    nodup_cons.mpr ⟨free, balanced.distinct⟩
  have before (one : TransferItem) := counts one
  rw [isParked] at before
  cases applyToAll with
  | true =>
    refine ⟨distinct, forall_mem_cons.mpr ⟨fun _ none => absurd none (Option.not_mem_none _),
      balanced.busy⟩, forall_mem_cons.mpr ⟨fun _ none => absurd none (Option.not_mem_none _),
      balanced.staffed⟩, fun _ none => absurd none (Option.not_mem_none _), failed, errors,
      fun one => ?_⟩
    have sum := before one
    show _ = _ + (skipped ++ (item :: transfer.queue)).count one + 0 + 0 +
      (tasks.filterMap Task.item).count one + _
    rw [count_append, count_cons]
    rw [Option.toList_some, count_cons, count_nil] at sum
    omega
  | false =>
    refine ⟨distinct, forall_mem_cons.mpr ⟨fun _ none => absurd none (Option.not_mem_none _),
      balanced.busy⟩, forall_mem_cons.mpr ⟨fun _ none => absurd none (Option.not_mem_none _),
      balanced.staffed⟩, fun _ none => absurd none (Option.not_mem_none _), failed, errors,
      fun one => ?_⟩
    have sum := before one
    show _ = _ + (skipped ++ [item]).count one + transfer.queue.count one + 0 +
      (tasks.filterMap Task.item).count one + _
    rw [count_append, count_cons, count_nil]
    rw [Option.toList_some, count_cons, count_nil] at sum
    omega

/-- The answer is applied to the parked item, in its slot. -/
theorem Balanced.apply (balanced : Balanced transfer launched completed skipped tasks)
    {item : TransferItem} {slot : Nat} (isParked : transfer.pendingConflictItem = some item)
    (isSlot : transfer.pendingConflictSlot = some slot) (direction : OverwriteDirection)
    (client : Client) (action : OverwriteAction) (applyToAll : Bool) :
    Balanced
      { transfer.unpark action applyToAll with busySlots := transfer.busySlots.set slot true }
      launched completed skipped
      (.perform slot (.applyOverwrite direction client item action) :: tasks) := by
  obtain ⟨failed, errors, counts⟩ := balanced.balance
  obtain ⟨_, parkedSlot, isParkedSlot, within, _, free⟩ := balanced.parked item isParked
  rw [isSlot, Option.some.injEq] at isParkedSlot
  rw [← isParkedSlot] at free within
  refine ⟨nodup_cons.mpr ⟨free, balanced.distinct⟩, ?_,
    forall_mem_cons.mpr ⟨fun _ none => absurd none (Option.not_mem_none _),
      balanced.staffed⟩, fun _ none => absurd none (Option.not_mem_none _), failed, errors,
      fun one => ?_⟩
  · refine forall_mem_cons.mpr ⟨fun one isOne => ?_, busy_set free balanced.busy⟩
    cases isOne
    exact getElem?_set_self within
  · have sum := counts one
    rw [isParked, Option.toList_some, count_cons, count_nil] at sum
    show _ = _ + transfer.queue.count one + 0 + (item :: tasks.filterMap Task.item).count one + _
    rw [count_cons]
    omega

end

/-! ### The tasks that report -/

variable {index : Nat} {started : Started Client}

theorem reporting_eraseIdx_of_not {owner : Owner Client}
    (found : owner.tasks[index]? = some started) (silent : started.reportsOn owner.transfer = false) :
    Owner.reporting { owner with tasks := owner.tasks.eraseIdx index } = owner.reporting :=
  congrArg (List.map Started.task) (filter_eraseIdx_of_not found silent)

theorem reporting_eraseIdx {owner : Owner Client} (found : owner.tasks[index]? = some started)
    (reports : started.reportsOn owner.transfer = true) :
    owner.reporting.Perm
      (started.task :: Owner.reporting { owner with tasks := owner.tasks.eraseIdx index }) := by
  obtain ⟨within, isStarted⟩ := List.getElem?_eq_some_iff.mp found
  have taken := (getElem_cons_eraseIdx_perm within).symm.filter
    (Started.reportsOn owner.transfer)
  rw [isStarted, filter_cons_of_pos reports] at taken
  exact taken.map Started.task

theorem reporting_set {owner : Owner Client} {other : Started Client}
    (found : owner.tasks[index]? = some started) (reports : other.reportsOn owner.transfer = true) :
    (Owner.reporting { owner with tasks := owner.tasks.set index other }).Perm
      (other.task :: Owner.reporting { owner with tasks := owner.tasks.eraseIdx index }) := by
  obtain ⟨within, _⟩ := List.getElem?_eq_some_iff.mp found
  have taken := (set_perm_cons_eraseIdx within other).filter
    (Started.reportsOn owner.transfer)
  rw [filter_cons_of_pos reports] at taken
  exact taken.map Started.task

theorem reporting_start_nexts (owner : Owner Client) (count : Nat) :
    (owner.start (Owner.nexts count)).reporting = owner.reporting :=
  congrArg (List.map Started.task) (reports_start_nexts owner count)

variable {task : Task Client}

theorem reporting_start_task {owner : Owner Client} (speaks : task ≠ .done .next) (count : Nat) :
    (owner.start (task :: Owner.nexts count)).reporting.Perm (task :: owner.reporting) := by
  have split : owner.start (task :: Owner.nexts count) =
      (owner.start [task]).start (Owner.nexts count) := by
    show { owner with tasks := _ } = { owner with tasks := _ }
    rw [map_cons, append_cons]
    rfl
  rw [split, reporting_start_nexts, Owner.reporting, reports_start_task speaks, map_append]
  exact perm_append_singleton _ _

theorem reportsOn_of_slot {slot : Nat} (reports : task.slot = some slot) (transfer : Nat) :
    (Started.mk transfer task).reportsOn transfer = true := by
  unfold Started.reportsOn
  split
  case h_1 isNext =>
    change task = .done .next at isNext
    rw [isNext] at reports
    cases reports
  case h_2 => exact decide_eq_true rfl

/-! ### One step -/

/-- The transfer that is under way, if one is, is in balance. -/
def Owner.Even (owner : Owner Client) (completed skipped : List TransferItem) : Prop :=
  ∀ transfer ∈ owner.state,
    Balanced transfer owner.launched completed skipped owner.reporting

variable {owner : Owner Client} {completed skipped : List TransferItem}

theorem paused_of_next {transfer : TransferState Client} (works : transfer.next ≠ .wait) :
    transfer.paused = false := by
  cases paused : transfer.paused with
  | false => rfl
  | true =>
    refine absurd ?_ works
    rw [TransferState.next, if_pos paused]

theorem unparked_of_running {transfer : TransferState Client} {launched : List TransferItem}
    {tasks : List (Task Client)}
    (balanced : Balanced transfer launched completed skipped tasks)
    (running : transfer.paused = false) : transfer.pendingConflictItem = none := by
  cases parked : transfer.pendingConflictItem with
  | none => rfl
  | some item =>
    have paused := (balanced.parked item parked).1
    rw [running] at paused
    cases paused

/-- No item is started in a slot on which a task is still to report. -/
def Owner.StartsFree (owner : Owner Client) : Prop :=
  ∀ transfer ∈ owner.state,
    match transfer.next with
    | .start _ task => ∀ other ∈ owner.reporting, other.slot ≠ task.slot
    | .wait | .finalize _ _ => True

theorem slot_itemTask (transfer : TransferState Client) (slot : Nat) (item : TransferItem) :
    (transfer.itemTask slot item).slot = some slot := by
  rcases itemTask_cases transfer slot item with ⟨job, _, _, isTask⟩ | ⟨error, isTask⟩
  · rw [isTask]
    rfl
  · rw [isTask]
    rfl

theorem Owner.Even.next (even : owner.Even completed skipped) (free : owner.StartsFree) :
    owner.next.Even completed skipped := by
  cases isState : owner.state with
  | none => rwa [Owner.next, isState]
  | some transfer =>
    have balanced := even transfer isState
    have apart := free transfer isState
    rw [Owner.next, isState]
    dsimp only
    rcases next_cases transfer with
      wait | ⟨-, -, ends⟩ | ⟨slot, item, queue, idle, waiting, starts⟩
    · rwa [wait]
    · rw [ends]
      intro current isCurrent
      dsimp only at isCurrent
      rw [(finalize_rest owner _ _).1] at isCurrent
      cases isCurrent
    · have works : transfer.next ≠ .wait := by
        rw [starts]
        nofun
      have running := paused_of_next works
      rw [starts] at apart ⊢
      intro current isCurrent
      cases isCurrent
      have unreported : slot ∉ owner.reporting.filterMap Task.slot := fun taken => by
        obtain ⟨other, member, isSlot⟩ := mem_filterMap.mp taken
        exact apart other member (isSlot.trans (slot_itemTask _ slot item).symm)
      have free : transfer.busySlots[slot]? = some false := by
        obtain ⟨within, isFree, _⟩ := findIdx?_eq_some_iff_getElem.mp idle
        rw [getElem?_eq_getElem within]
        simpa using isFree
      have started := balanced.start waiting free unreported
        (unparked_of_running balanced running)
      have speaks : (transfer.startItem slot item queue).itemTask slot item ≠ .done .next :=
        fun isNext => by
          have isSlot := slot_itemTask (transfer.startItem slot item queue) slot item
          rw [isNext] at isSlot
          cases isSlot
      exact started.perm (reporting_start_task speaks 0).symm

/-- A message is delivered that does the transfer no harm. -/
theorem Owner.Even.deliver {next : Owner Client} (even : owner.Even completed skipped)
    (delivered : owner.deliver index = some next)
    (untroubled : ∀ started ∈ owner.tasks[index]?, ∀ transfer ∈ owner.state,
      started.Untroubled owner transfer) :
    next.Even completed skipped := by
  unfold Owner.deliver at delivered
  split at delivered
  case h_2 => cases delivered
  case h_1 number message found =>
    cases delivered
    have harmless := untroubled _ found
    -- A message of another transfer, and a plain request for the next item, reports nothing.
    have same (silent : (Started.mk number (.done message)).reportsOn owner.transfer = false) :
        Owner.Even { owner with tasks := owner.tasks.eraseIdx index } completed skipped :=
      fun transfer isState => by
        rw [reporting_eraseIdx_of_not found silent]
        exact even transfer isState
    cases message with
    | next =>
      refine (same rfl).next fun transfer isState => ?_
      have apart := (harmless transfer isState).2
      rw [reporting_eraseIdx_of_not found rfl]
      exact apart
    | itemDone slot =>
      show Owner.Even (Owner.itemDone _ slot) completed skipped
      rw [Owner.itemDone]
      split
      case h_1 isNone =>
        intro transfer isState
        exact absurd (isNone.symm.trans isState) nofun
      case h_2 transfer isState =>
        have itemDone : Balanced (transfer.itemDone slot) owner.launched completed skipped
            (Owner.reporting { owner with tasks := owner.tasks.eraseIdx index }) := by
          by_cases own : number = owner.transfer
          · subst own
            have taken := reporting_eraseIdx found (decide_eq_true rfl)
            exact ((even transfer isState).perm taken).itemDone
          · exact (same (reportsOn_of_ne own) transfer isState).itemDone_idle
              ((harmless transfer isState).1 own)
        intro current isCurrent
        cases isCurrent
        rw [reporting_start_nexts]
        exact itemDone
    | conflict prompt item slot =>
      intro current isCurrent
      obtain ⟨transfer, isState, rfl⟩ := Option.map_eq_some_iff.mp isCurrent
      obtain ⟨stale, unparked⟩ := harmless transfer isState
      by_cases own : number = owner.transfer
      · subst own
        have taken := reporting_eraseIdx found (decide_eq_true rfl)
        exact ((even transfer isState).perm taken).park unparked
      · exact (stale own).elim
    | error error slot =>
      intro current isCurrent
      cases isCurrent

theorem ofStep_map_ne_conflict (result : Except TransferError Unit) (prompt : OverwritePrompt)
    (item : TransferItem) :
    Outcome.ofStep (result.map fun _ => .done) ≠ .conflict prompt item := by
  cases result <;> nofun

variable {job : Job Client} {answers : ItemAnswers}

/-- A worker's item, and no other, is the one whose name is taken; it is a file. -/
theorem work_conflict {prompt : OverwritePrompt} {item : TransferItem}
    (conflict : job.work answers = .conflict prompt item) :
    item = job.item ∧ (∀ slot, (Task.perform slot job).mayPark = some slot) ∧
      job.item.isDir = false ∧ prompt.dropUploadPane = none := by
  cases job with
  | upload client file overwriteDefault multi =>
    rw [Job.work] at conflict
    unfold doUploadItem at conflict
    split at conflict
    · split at conflict <;> cases conflict
    · rename_i isFile
      split at conflict
      · cases conflict
      · exact absurd conflict (ofStep_map_ne_conflict _ _ _)
      · split at conflict
        · exact absurd conflict (ofStep_map_ne_conflict _ _ _)
        · cases conflict
          exact ⟨rfl, fun _ => rfl, Bool.eq_false_iff.mpr isFile, rfl⟩
  | download client file overwriteDefault multi =>
    rw [Job.work] at conflict
    unfold doDownloadItem at conflict
    split at conflict
    · exact absurd conflict (ofStep_map_ne_conflict _ _ _)
    · rename_i isFile
      split at conflict
      · exact absurd conflict (ofStep_map_ne_conflict _ _ _)
      · split at conflict
        · exact absurd conflict (ofStep_map_ne_conflict _ _ _)
        · cases conflict
          exact ⟨rfl, fun _ => rfl, Bool.eq_false_iff.mpr isFile, rfl⟩
  | relay source dest file verify => cases conflict
  | duplicateLocal file => exact absurd conflict (ofStep_map_ne_conflict _ _ _)
  | applyOverwrite direction client file action =>
    cases direction <;> exact absurd conflict (ofStep_map_ne_conflict _ _ _)

/-- What a worker reports: its item is done, failed, or to be parked. -/
theorem report_cases {slot : Nat} {message : TransferMessage}
    (reported : job.report slot (job.work answers) = some message) :
    message = .itemDone slot ∨ (∃ error, message = .error error slot) ∨
      ∃ prompt, message = .conflict prompt job.item slot ∧
        (Task.perform slot job).mayPark = some slot := by
  unfold Job.report at reported
  split at reported
  · split at reported
    · exact .inl (Option.some.inj reported).symm
    · exact .inr (.inl ⟨_, (Option.some.inj reported).symm⟩)
  · cases reported
  · rename_i conflict
    obtain ⟨isItem, asks, -⟩ := work_conflict conflict
    exact .inr (.inr ⟨_, by rw [← isItem]; exact (Option.some.inj reported).symm, asks slot⟩)
  · rename_i conflict
    obtain ⟨isItem, asks, -⟩ := work_conflict conflict
    exact .inr (.inr ⟨_, by rw [← isItem]; exact (Option.some.inj reported).symm, asks slot⟩)
  · exact .inl (Option.some.inj reported).symm
  · exact .inr (.inl ⟨_, (Option.some.inj reported).symm⟩)
  · cases reported

theorem ofTransfer_append (transfer : Nat) (first second : List (Nat × TransferItem)) :
    ofTransfer transfer (first ++ second) = ofTransfer transfer first ++ ofTransfer transfer second := by
  rw [ofTransfer, filter_append, map_append]
  rfl

theorem Owner.Even.finish {next : Owner Client} (even : owner.Even completed skipped)
    {transfer slot : Nat} (found : owner.tasks[index]? = some ⟨transfer, .perform slot job⟩)
    (finished : owner.finish index (job.work answers) = some next) :
    next.Even (completed ++ ofTransfer owner.transfer (completedBy transfer slot job answers))
      skipped := by
  rw [Owner.finish, found] at finished
  obtain ⟨message, reported, rfl⟩ := Option.map_eq_some_iff.mp finished
  obtain ⟨sameState, sameTasks, sameTransfer, sameLaunched, _⟩ := record_rest
    { owner with tasks := owner.tasks.set index ⟨transfer, .done message⟩ } transfer job
    (job.work answers)
  have sameReporting : (Owner.record { owner with
      tasks := owner.tasks.set index ⟨transfer, .done message⟩ } transfer job
        (job.work answers)).reporting =
      Owner.reporting { owner with tasks := owner.tasks.set index ⟨transfer, .done message⟩ } := by
    rw [Owner.reporting, Owner.reports, sameTasks, sameTransfer]
    rfl
  intro current isCurrent
  rw [sameState] at isCurrent
  rw [sameLaunched, sameReporting]
  have balanced := even current isCurrent
  by_cases own : transfer = owner.transfer
  · subst own
    have before := balanced.perm (reporting_eraseIdx found (decide_eq_true rfl))
    have speaks (task : Task Client) (reports : task.slot = some slot) :
        (Started.mk owner.transfer task).reportsOn owner.transfer = true :=
      reportsOn_of_slot reports owner.transfer
    rcases report_cases reported with isDone | ⟨error, failed⟩ | ⟨prompt, conflict, asks⟩
    · have noted : ofTransfer owner.transfer (completedBy owner.transfer slot job answers) =
          [job.item] := by
        rw [completedBy, reported, isDone]
        simp [ofTransfer]
      rw [noted, isDone]
      exact before.finish_done.perm (reporting_set found (speaks _ rfl)).symm
    · have noted : ofTransfer owner.transfer (completedBy owner.transfer slot job answers) =
          [] := by
        rw [completedBy, reported, failed]
        rfl
      rw [noted, failed, append_nil]
      exact (before.finish_error error).perm (reporting_set found (speaks _ rfl)).symm
    · have noted : ofTransfer owner.transfer (completedBy owner.transfer slot job answers) =
          [] := by
        rw [completedBy, reported, conflict]
        rfl
      rw [noted, conflict, append_nil]
      exact (before.finish_conflict asks prompt).perm
        (reporting_set found (speaks _ rfl)).symm
  · have noted : ofTransfer owner.transfer (completedBy transfer slot job answers) = [] := by
      rw [completedBy]
      split
      · simp [ofTransfer, own]
      · rfl
    rw [noted, append_nil]
    have unchanged : Owner.reporting { owner with
        tasks := owner.tasks.set index ⟨transfer, .done message⟩ } = owner.reporting :=
      congrArg (List.map Started.task)
        (filter_set_of_not found (reportsOn_of_ne own) (reportsOn_of_ne own))
    rw [unchanged]
    exact balanced

theorem skippedBy_of_not_cancel {action : OverwriteAction} (applies : action ≠ .cancel)
    (paneClient : Option Client) :
    skippedBy owner (.resolveOverwrite action paneClient) = [] := by
  cases action with
  | cancel => exact absurd rfl applies
  | replace | replaceIfDifferent | duplicate | resume => rfl

theorem ofTransfer_map (transfer : Nat) (items : List TransferItem) :
    ofTransfer transfer (items.map (transfer, ·)) = items := by
  induction items with
  | nil => rfl
  | cons item rest inductionHypothesis =>
    rw [ofTransfer] at inductionHypothesis
    simpa [ofTransfer] using inductionHypothesis

/-- A question is answered: the parked item is skipped, or started once more. -/
theorem Owner.Even.resolve (even : owner.Even completed skipped) (action : OverwriteAction)
    (paneClient : Option Client) :
    (owner.resolveOverwrite action paneClient).Even completed
      (skipped ++ ofTransfer owner.transfer
        (skippedBy owner (.resolveOverwrite action paneClient))) := by
  have unchanged (none : skippedBy owner (.resolveOverwrite action paneClient) = []) :
      owner.Even completed (skipped ++ ofTransfer owner.transfer
        (skippedBy owner (.resolveOverwrite action paneClient))) := by
    rw [none]
    show owner.Even completed (skipped ++ [])
    rwa [append_nil]
  have notes (none : action = .cancel →
      skippedBy owner (.resolveOverwrite .cancel paneClient) = []) :
      skippedBy owner (.resolveOverwrite action paneClient) = [] := by
    by_cases skips : action = .cancel
    · rw [skips]
      exact none skips
    · exact skippedBy_of_not_cancel skips paneClient
  rw [Owner.resolveOverwrite]
  cases isPrompt : owner.overwritePrompt with
  | none => exact unchanged (notes fun _ => by simp [skippedBy, isPrompt])
  | some prompt =>
    dsimp only
    by_cases pane : prompt.dropUploadPane.isSome
    · rw [if_pos pane]
      refine unchanged (notes fun _ => ?_)
      cases isState : owner.state <;> simp [skippedBy, isPrompt, isState, pane]
    · rw [if_neg pane]
      cases isState : owner.state with
      | none =>
        intro transfer isSome
        exact absurd isSome (Option.not_mem_none _)
      | some transfer =>
        dsimp only
        have balanced := even transfer isState
        cases isParked : transfer.pendingConflictItem with
        | none =>
          have none : skippedBy owner (.resolveOverwrite action paneClient) = [] :=
            notes fun _ => by simp [skippedBy, isPrompt, isState, isParked]
          rw [none]
          intro current isCurrent
          cases isCurrent
          show Balanced _ _ _ (skipped ++ []) _
          rw [append_nil]
          exact balanced.unpark isParked action prompt.applyToAll
        | some item =>
          obtain ⟨_, slot, isSlot, _, staffed, _⟩ := balanced.parked item isParked
          dsimp only
          rw [isSlot, Option.getD_some]
          by_cases skips : action = .cancel
          · rw [if_pos skips, skips]
            have noted : skippedBy owner (.resolveOverwrite .cancel paneClient) =
                (item :: if prompt.applyToAll then transfer.queue else []).map
                  (owner.transfer, ·) := by
              simp [skippedBy, isPrompt, isState, isParked, pane]
            rw [noted, ofTransfer_map]
            have speaks : (.done (.itemDone slot) : Task Client) ≠ .done .next := nofun
            intro current isCurrent
            cases isCurrent
            exact (balanced.skip isParked isSlot prompt.applyToAll).perm
              (reporting_start_task speaks _).symm
          · rw [if_neg skips, skippedBy_of_not_cancel skips]
            show Owner.Even _ _ (skipped ++ [])
            rw [append_nil, Owner.applyParked]
            have hasClient : ∃ client,
                (transfer.unpark action prompt.applyToAll).clients[slot]? = some client :=
              Option.isSome_iff_exists.mp staffed
            obtain ⟨client, isClient⟩ := hasClient
            rw [isClient]
            have speaks : (.perform slot (.applyOverwrite prompt.direction client item action) :
                Task Client) ≠ .done .next := nofun
            show Owner.Even (Owner.start _ _) _ _
            intro current isCurrent
            cases isCurrent
            exact (balanced.apply isParked isSlot prompt.direction client action
              prompt.applyToAll).perm (reporting_start_task speaks _).symm

/-! ### Runs -/

variable {action : Action Client}

variable {one : Nat × TransferItem}

theorem transfer_of_mem_skippedBy (skips : one ∈ skippedBy owner action) :
    one.1 = owner.transfer := by
  unfold skippedBy at skips
  split at skips
  · split at skips
    · split at skips
      · cases skips
      · split at skips
        · cases skips
        · obtain ⟨item, _, rfl⟩ := mem_map.mp skips
          rfl
    · cases skips
  · cases skips

theorem transfer_of_mem_completedBy {transfer slot : Nat}
    (done : one ∈ completedBy transfer slot job answers) : one.1 = transfer := by
  unfold completedBy at done
  split at done
  · rw [mem_singleton.mp done]
  · cases done

variable {noted : List (Nat × TransferItem)}

/-- What is noted of earlier transfers says nothing of this one. -/
theorem ofTransfer_of_earlier {transfer : Nat} (earlier : ∀ one ∈ noted, one.1 < transfer) :
    ofTransfer transfer noted = [] := by
  rw [ofTransfer, filter_eq_nil_iff.mpr, map_nil]
  intro one member isNoted
  exact absurd (of_decide_eq_true isNoted) (earlier one member).ne

theorem Owner.Even.queueReady {skips : List (Nat × TransferItem)}
    (numbered : ∀ started ∈ owner.tasks, started.transfer ≤ owner.transfer)
    (earlier : ∀ one ∈ noted ++ skips, one.1 ≤ owner.transfer) (launch : Launch Client) :
    (owner.queueReady launch).Even (ofTransfer (owner.transfer + 1) noted)
      (ofTransfer (owner.transfer + 1) skips) := by
  have nothingDone : ofTransfer (owner.transfer + 1) noted = [] :=
    ofTransfer_of_earlier fun one member =>
      Nat.lt_succ_of_le (earlier one (mem_append_left _ member))
  have nothingSkipped : ofTransfer (owner.transfer + 1) skips = [] :=
    ofTransfer_of_earlier fun one member =>
      Nat.lt_succ_of_le (earlier one (mem_append_right _ member))
  rw [nothingDone, nothingSkipped, Owner.queueReady]
  intro current isCurrent
  cases isCurrent
  have silent : Owner.reporting { owner with
      state := some launch.state
      transfer := owner.transfer + 1
      launched := launch.queue } = [] :=
    congrArg (List.map Started.task)
      (filter_of_earlier fun started member => Nat.lt_succ_of_le (numbered started member))
  rw [reporting_start_nexts, silent]
  exact balanced_launch launch

/-- The number of the transfer changes when another gets ready, and at no other time. -/
theorem transfer_deliver {next : Owner Client} (delivered : owner.deliver index = some next) :
    next.transfer = owner.transfer := by
  unfold Owner.deliver at delivered
  split at delivered
  case h_2 => cases delivered
  case h_1 number message found =>
    cases delivered
    cases message with
    | next =>
      show (Owner.next _).transfer = _
      unfold Owner.next
      split
      · rfl
      · split
        · rfl
        · rw [(finalize_rest _ _ _).2.1]
        · rfl
    | itemDone slot =>
      show (Owner.itemDone _ slot).transfer = _
      unfold Owner.itemDone
      split <;> rfl
    | conflict prompt item slot => rfl
    | error error slot => rfl

theorem transfer_resolveOverwrite (action : OverwriteAction) (paneClient : Option Client) :
    (owner.resolveOverwrite action paneClient).transfer = owner.transfer := by
  unfold Owner.resolveOverwrite
  split
  · rfl
  dsimp only
  split
  · rfl
  split
  · rfl
  split
  · rfl
  split
  · rfl
  · unfold Owner.applyParked
    split <;> rfl

theorem transfer_finish {next : Owner Client} {outcome : Outcome}
    (finished : owner.finish index outcome = some next) : next.transfer = owner.transfer := by
  unfold Owner.finish at finished
  split at finished
  · obtain ⟨message, _, rfl⟩ := Option.map_eq_some_iff.mp finished
    rw [(record_rest _ _ _ _).2.2.1]
  · cases finished

/-- The account of a watched run. -/
structure Watched.Kept (watched : Watched Client) : Prop where
  guarded : Guarded watched.owner
  noted : ∀ one ∈ watched.completed ++ watched.skipped, one.1 ≤ watched.owner.transfer
  even : watched.owner.Even (ofTransfer watched.owner.transfer watched.completed)
    (ofTransfer watched.owner.transfer watched.skipped)
  sound : LosesNothing watched

variable {watched : Watched Client}

/-- A transfer that is over is in balance, with nothing in its queue and no slot busy. -/
theorem Watched.Kept.finalsBy (kept : watched.Kept) (action : Action Client) :
    ∀ final ∈ watched.finalsBy action, final.Sound := by
  intro final member
  unfold Watched.finalsBy at member
  split at member
  · split at member
    · rename_i transfer _ isState
      split at member
      · rename_i ends
        rw [mem_singleton.mp member]
        have works : transfer.next ≠ .wait := by
          rw [ends]
          nofun
        have running := paused_of_next works
        rcases next_cases transfer with wait | ⟨empty, idle, _⟩ | ⟨_, _, _, _, _, starts⟩
        · rw [wait] at ends
          cases ends
        · exact (kept.even transfer isState).sound empty idle running
        · rw [starts] at ends
          cases ends
      · cases member
      · cases member
    · cases member
  · cases member

/-- What leaves the transfer and its tasks alone leaves them in balance. -/
theorem Owner.Even.of_same {next : Owner Client} (even : owner.Even completed skipped)
    (state : next.state = owner.state) (tasks : next.tasks = owner.tasks)
    (transfer : next.transfer = owner.transfer) (launched : next.launched = owner.launched) :
    next.Even completed skipped := by
  intro current isCurrent
  rw [state] at isCurrent
  rw [launched, Owner.reporting, Owner.reports, tasks, transfer]
  exact even current isCurrent

theorem undisturbed_of_untroubled (untroubled : Untroubled watched (.act action)) :
    Undisturbed watched.owner action := by
  cases action with
  | deliver index =>
    exact fun started found other transfer isState _ =>
      (untroubled started found transfer isState).1 other
  | queueReady _ | finish _ _ | cancelTransfer | toggleApplyToAll | resolveOverwrite _ _
  | otherPrompt _ => trivial

theorem Watched.Kept.act (kept : watched.Kept) {next : Owner Client}
    (acts : ∀ index outcome, action ≠ .finish index outcome)
    (stepped : runner.step watched.owner action = some next)
    (untroubled : Untroubled watched (.act action)) :
    Watched.Kept ⟨next, watched.completed, watched.skipped ++ skippedBy watched.owner action,
      watched.finals ++ watched.finalsBy action⟩ := by
  have noted (later : watched.owner.transfer ≤ next.transfer) :
      ∀ one ∈ watched.completed ++ (watched.skipped ++ skippedBy watched.owner action),
        one.1 ≤ next.transfer := by
    intro one member
    rw [← append_assoc] at member
    rcases mem_append.mp member with old | new
    · exact (kept.noted one old).trans later
    · rw [transfer_of_mem_skippedBy new]
      exact later
  have sound : ∀ final ∈ watched.finals ++ watched.finalsBy action, final.Sound := by
    intro final member
    rcases mem_append.mp member with old | new
    · exact kept.sound final old
    · exact kept.finalsBy action final new
  have guarded := guarded_step kept.guarded (undisturbed_of_untroubled untroubled) stepped
  -- Nothing is skipped, and the transfer is the same.
  have quiet (same : next.transfer = watched.owner.transfer)
      (none : skippedBy watched.owner action = [])
      (even : next.Even (ofTransfer watched.owner.transfer watched.completed)
        (ofTransfer watched.owner.transfer watched.skipped)) :
      Watched.Kept ⟨next, watched.completed, watched.skipped ++ skippedBy watched.owner action,
        watched.finals ++ watched.finalsBy action⟩ := by
    refine ⟨guarded, noted same.ge, ?_, sound⟩
    show next.Even (ofTransfer next.transfer _) (ofTransfer next.transfer (_ ++ _))
    rw [none, append_nil, same]
    exact even
  cases action with
  | queueReady launch =>
    cases stepped
    refine ⟨guarded, noted (Nat.le_succ _), ?_, sound⟩
    show Owner.Even _ _ (ofTransfer _ (watched.skipped ++ []))
    rw [append_nil]
    exact .queueReady kept.guarded.numbered kept.noted launch
  | deliver index =>
    exact quiet (transfer_deliver stepped) rfl (kept.even.deliver stepped untroubled)
  | finish index outcome => exact absurd rfl (acts index outcome)
  | cancelTransfer =>
    cases stepped
    exact quiet rfl rfl fun _ none => absurd none (Option.not_mem_none _)
  | toggleApplyToAll =>
    cases stepped
    exact quiet rfl rfl (kept.even.of_same rfl rfl rfl rfl)
  | otherPrompt prompt =>
    cases stepped
    exact quiet rfl rfl (kept.even.of_same rfl rfl rfl rfl)
  | resolveOverwrite action paneClient =>
    cases stepped
    have same : (watched.owner.resolveOverwrite action paneClient).transfer =
        watched.owner.transfer := transfer_resolveOverwrite action paneClient
    refine ⟨guarded, noted same.ge, ?_, sound⟩
    show Owner.Even _ (ofTransfer (Owner.transfer _) _) (ofTransfer (Owner.transfer _) _)
    rw [same, ofTransfer_append]
    exact kept.even.resolve action paneClient

theorem Watched.Kept.finish (kept : watched.Kept) {transfer slot : Nat} {next : Owner Client}
    (found : watched.owner.tasks[index]? = some ⟨transfer, .perform slot job⟩)
    (finished : watched.owner.finish index (job.work answers) = some next) :
    Watched.Kept { watched with
      owner := next
      completed := watched.completed ++ completedBy transfer slot job answers } := by
  have same := transfer_finish finished
  have numbered := kept.guarded.numbered _ (mem_of_getElem? found)
  refine ⟨guarded_finish kept.guarded finished, fun one member => ?_, ?_, kept.sound⟩
  · show one.1 ≤ next.transfer
    rw [same]
    rcases mem_append.mp member with done | skips
    · rcases mem_append.mp done with old | new
      · exact kept.noted one (mem_append_left _ old)
      · rw [transfer_of_mem_completedBy new]
        exact numbered
    · exact kept.noted one (mem_append_right _ skips)
  · show next.Even (ofTransfer next.transfer (_ ++ _)) (ofTransfer next.transfer _)
    rw [same, ofTransfer_append]
    exact kept.even.finish found finished

theorem Watched.Kept.step {next : Watched Client} (kept : watched.Kept)
    {action : WatchedAction Client} (untroubled : Untroubled watched action)
    (stepped : watching.step watched action = some next) : next.Kept := by
  cases action with
  | act action =>
    have acts : ∀ index outcome, action ≠ .finish index outcome := by
      rintro index outcome rfl
      cases stepped
    have taken : (runner.step watched.owner action).map (fun next => (⟨next, watched.completed,
        watched.skipped ++ skippedBy watched.owner action,
        watched.finals ++ watched.finalsBy action⟩ : Watched Client)) = some next := by
      cases action with
      | finish index outcome => exact absurd rfl (acts index outcome)
      | queueReady _ | deliver _ | cancelTransfer | toggleApplyToAll | resolveOverwrite _ _
      | otherPrompt _ => exact stepped
    obtain ⟨owner, ownerStepped, rfl⟩ := Option.map_eq_some_iff.mp taken
    exact kept.act acts ownerStepped untroubled
  | finish index answers =>
    change (match watched.owner.tasks[index]? with
      | some ⟨transfer, .perform slot job⟩ => _
      | _ => none) = some next at stepped
    split at stepped
    · rename_i transfer slot job found
      obtain ⟨owner, finished, rfl⟩ := Option.map_eq_some_iff.mp stepped
      exact kept.finish found finished
    · cases stepped

theorem kept_initial (sidebar : Bool) : (Watched.initial sidebar : Watched Client).Kept where
  guarded := guarded_initial sidebar
  noted := forall_mem_nil _
  even := fun _ none => absurd none (Option.not_mem_none _)
  sound := forall_mem_nil _

/-- Where no conflict comes while an item is parked, no item is started in a slot on which a task is
still to report, and no worker of an earlier transfer disturbs the one under way, a transfer that is
over has every item of its queue done or skipped, once. -/
theorem losesNothing_of_run {sidebar : Bool} {actions : List (WatchedAction Client)}
    {final : Watched Client} (untroubled : watching.Along Untroubled (.initial sidebar) actions)
    (ran : watching.run (.initial sidebar) actions = some final) : LosesNothing final := by
  have kept : final.Kept := Machine.invariant
    (fun _ _ _ kept here stepped => kept.step here stepped) (kept_initial sidebar) untroubled ran
  exact kept.sound

/-! ### Two runs -/

instance (owner : Owner Client) (transfer : TransferState Client) :
    ∀ started, Decidable (Started.Untroubled owner transfer started)
  | ⟨number, .done (.conflict prompt item slot)⟩ => inferInstanceAs (Decidable
      ((number ≠ owner.transfer →
        Task.Harmless transfer (.done (.conflict prompt item slot) : Task Client)) ∧
        transfer.pendingConflictItem = none))
  | ⟨number, .done .next⟩ =>
    match isNext : transfer.next with
    | .start _ task => decidable_of_iff
        ((number ≠ owner.transfer → Task.Harmless transfer (.done .next : Task Client)) ∧
          ∀ other ∈ owner.reporting, other.slot ≠ task.slot)
        (by simp only [Started.Untroubled, isNext])
    | .wait | .finalize _ _ => isTrue ⟨fun _ => trivial, by simp only [isNext]⟩
  | ⟨number, .done (.itemDone slot)⟩ => inferInstanceAs (Decidable
      ((number ≠ owner.transfer →
        Task.Harmless transfer (.done (.itemDone slot) : Task Client)) ∧ True))
  | ⟨_, .done (.error _ _)⟩ => isTrue ⟨fun _ => trivial, trivial⟩
  | ⟨_, .perform _ _⟩ => isTrue ⟨fun _ => trivial, trivial⟩

instance (watched : Watched Client) : ∀ action, Decidable (Untroubled watched action)
  | .act (.deliver index) => inferInstanceAs (Decidable (∀ started ∈ watched.owner.tasks[index]?,
      ∀ transfer ∈ watched.owner.state, started.Untroubled watched.owner transfer))
  | .act (.queueReady _) | .act (.finish _ _) | .act .cancelTransfer | .act .toggleApplyToAll
  | .act (.resolveOverwrite _ _) | .act (.otherPrompt _) | .finish _ _ => isTrue trivial

/-- A file of this name, to be put where one is. -/
def named (name : String) : TransferItem := ⟨name, name, false, some 3⟩

/-- Nothing goes wrong, but the name is taken. -/
def taken : ItemAnswers :=
  ⟨.ok (), .ok (), .ok (some 5), .ok 3, .ok (some 5), .ok (), .ok (),
    ⟨.ok (), .ok (), .ok (), .ok 3, .ok 3⟩⟩

/-- Nothing goes wrong, and there is nothing of that name. -/
def vacant : ItemAnswers := { taken with found := .ok none, foundAgain := .ok none }

/-- Two workers find their files' names taken, and both say so before the user answers. -/
def bothTaken : List (WatchedAction Unit) :=
  [.act (.queueReady (.batch .upload [named "notes", named "plan"] [(), ()] 2)),
    .act (.deliver 0), .act (.deliver 0), .finish 0 taken, .finish 1 taken, .act (.deliver 0),
    .act (.deliver 0), .act (.resolveOverwrite .replace none), .finish 0 taken, .act (.deliver 0),
    .act (.deliver 0)]

/-- The first file is neither replaced nor left out by an answer, and the transfer is over. -/
theorem not_losesNothing_bothTaken :
    ¬ ∀ final, watching.run (.initial false) bothTaken = some final → LosesNothing final := by
  intro always
  have lost : (watching.run (.initial false) bothTaken).any (fun final =>
      final.finals.any fun one => (one.completed ++ one.skipped).length ≠ one.launched.length) =
        true := by
    decide +kernel
  obtain ⟨final, ran, someLost⟩ := (Option.any_eq_true _ _).mp lost
  obtain ⟨one, member, shorter⟩ := any_eq_true.mp someLost
  exact of_decide_eq_true shorter (always final ran one member).accounted.length_eq

/-- A file is skipped, and the next is started in its slot before the skip's own message frees it:
the transfer is over with a worker at that file. -/
def skippedLate : List (WatchedAction Unit) :=
  [.act (.queueReady (.batch .upload [named "notes", named "plan", named "list"] [(), ()] 2)),
    .act (.deliver 0), .act (.deliver 0), .finish 1 vacant, .finish 0 taken, .act (.deliver 0),
    .act (.deliver 0), .act (.resolveOverwrite .cancel none), .act (.deliver 0), .act (.deliver 0),
    .act (.deliver 0)]

example : (watching.run (.initial false) skippedLate).any (fun final =>
    final.finals.any fun one => one.running = [named "list"]) = true := by
  decide +kernel

/-- Two names are taken, but the second worker finds out after the first answer. The first file is
replaced, and what is left then is skipped. -/
def answered : List (WatchedAction Unit) :=
  [.act (.queueReady (.batch .upload [named "notes", named "plan", named "list"] [(), ()] 2)),
    .act (.deliver 0), .act (.deliver 0), .finish 0 taken, .finish 1 vacant, .act (.deliver 0),
    .act (.resolveOverwrite .replace none), .finish 1 taken, .act (.deliver 1), .act (.deliver 2),
    .act (.deliver 0), .act (.deliver 0), .finish 0 taken, .act (.deliver 0),
    .act .toggleApplyToAll, .act (.resolveOverwrite .cancel none), .act (.deliver 0),
    .act (.deliver 0)]

theorem losesNothing_answered : ∃ final,
    watching.run (.initial false) answered = some final ∧ LosesNothing final ∧
      final.finals.map Final.skipped = [[named "list"]] := by
  have ends : (watching.run (.initial false) answered).any (fun final =>
      final.finals.map Final.skipped = [[named "list"]]) = true := by
    decide +kernel
  obtain ⟨final, ran, skips⟩ := (Option.any_eq_true _ _).mp ends
  exact ⟨final, ran, losesNothing_of_run (by decide +kernel) ran, of_decide_eq_true skips⟩

end Oryxis.Transfer

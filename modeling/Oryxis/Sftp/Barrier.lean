/-
This file proves when the slots and the directory barrier of a transfer hold.

They hold as long as a slot is freed by the report on the item in it. An answer that skips an item
sends such a report for work that never ran, in a slot that is idle already; where an item is
started there before the report is handled, the report frees the slot under the worker. Without
that no slot has two items, and an item is handed out only when every directory queued before it
is completed.
-/

import Oryxis.Sftp.Stalling

namespace Oryxis.Transfer

open Library List

variable {Client : Type*}

/-! ### What the slots and the barrier promise -/

/-- Every directory of a list is among what was completed, as often as it is there. -/
def DirsDone (items completed : List TransferItem) : Prop :=
  ∀ item : TransferItem, item.isDir → items.count item ≤ completed.count item

/-- An item in front of which every directory was completed. -/
def Behind (launched completed : List TransferItem) (item : TransferItem) : Prop :=
  ∃ before after, launched = before ++ item :: after ∧ DirsDone before completed

/-- The slot of an item in flight. -/
def Task.flightSlot (task : Task Client) : Option Nat := if task.isInFlight then task.slot else none

def Watched.done (watched : Watched Client) : List TransferItem :=
  watched.completed.map Prod.snd

/-- No two items are in flight on one slot. An item that is handed out next, or started again by
an answer, has every directory queued before it completed, and a directory is alone. -/
structure BarrierHolds (watched : Watched Client) : Prop where
  alone : (watched.owner.mail.filterMap Task.flightSlot).Nodup
  next : ∀ transfer ∈ watched.owner.state, ∀ started slot job,
    transfer.next = .start started (.perform slot job) →
      (∃ before, watched.owner.launched = before ++ job.item :: started.queue ∧
        DirsDone before watched.done) ∧
      (job.item.isDir → (∀ task ∈ watched.owner.mail, task.isInFlight = false) ∧
        transfer.pendingConflictItem = none)
  answer : ∀ transfer ∈ watched.owner.state, ∀ item ∈ transfer.pendingConflictItem,
    item.isDir = false ∧ Behind watched.owner.launched watched.done item

/-- The slot in which the next item is started, if one is. -/
def TransferState.startSlot (transfer : TransferState Client) : Option Nat :=
  match transfer.next with
  | .start _ task => task.slot
  | .wait | .finalize _ _ => none

def Task.isNext : Task Client → Bool
  | .done .next => true
  | .done (.itemDone _) | .done (.conflict _ _ _) | .done (.error _ _) | .perform _ _ => false

/-- The report that the item of a slot is done. -/
def Task.frees (slot : Nat) : Task Client → Bool
  | .done (.itemDone own) => own = slot
  | .done .next | .done (.conflict _ _ _) | .done (.error _ _) | .perform _ _ => false

/-- No item is handed out in a slot for which a report that an item is done is still to be handled:
the one an answer sends that skips an item. -/
def Spaced (watched : Watched Client) : WatchedAction Client → Prop
  | .act (.deliver index) => ∀ started ∈ watched.owner.tasks[index]?, started.task.isNext →
      ∀ transfer ∈ watched.owner.state, ∀ slot ∈ transfer.startSlot,
        ∀ other ∈ watched.owner.mail, other.frees slot = false
  | .act (.queueReady _) | .act (.finish _ _) | .act .cancelTransfer | .act .toggleApplyToAll
  | .act (.resolveOverwrite _ _) | .act (.otherPrompt _) | .finish _ _ => True

instance (watched : Watched Client) : ∀ action, Decidable (Spaced watched action)
  | .act (.deliver index) => inferInstanceAs (Decidable (∀ started ∈ watched.owner.tasks[index]?,
      started.task.isNext → ∀ transfer ∈ watched.owner.state, ∀ slot ∈ transfer.startSlot,
        ∀ other ∈ watched.owner.mail, other.frees slot = false))
  | .act (.queueReady _) | .act (.finish _ _) | .act .cancelTransfer | .act .toggleApplyToAll
  | .act (.resolveOverwrite _ _) | .act (.otherPrompt _) | .finish _ _ => isTrue trivial

variable {items : List TransferItem}

theorem DirsDone.mono {completed : List TransferItem} (done : DirsDone items completed)
    (more : List TransferItem) : DirsDone items (completed ++ more) := fun item isDir => by
  rw [count_append]
  exact Nat.le_add_right_of_le (done item isDir)

theorem DirsDone.append_file {completed : List TransferItem} {file : TransferItem}
    (done : DirsDone items completed) (isFile : file.isDir = false) :
    DirsDone (items ++ [file]) completed := fun item isDir => by
  have other : file ≠ item := by
    rintro rfl
    rw [isFile] at isDir
    cases isDir
  rw [count_append, count_singleton, if_neg (by rw [beq_iff_eq]; exact other)]
  exact done item isDir

theorem DirsDone.append_same {completed : List TransferItem} (done : DirsDone items completed)
    (more : List TransferItem) :
    DirsDone (items ++ more) (completed ++ more) := fun item isDir => by
  rw [count_append, count_append]
  exact Nat.add_le_add_right (done item isDir) _

theorem Behind.mono {launched completed : List TransferItem} {item : TransferItem}
    (behind : Behind launched completed item) (more : List TransferItem) :
    Behind launched (completed ++ more) item := by
  obtain ⟨before, after, whole, done⟩ := behind
  exact ⟨before, after, whole, done.mono more⟩

/-! ### What keeps the promise -/

/-- The task that lifts the barrier of a directory in a slot: its worker, or the report that it is
done, with it and all in front of it completed, or that it failed. -/
def Task.Bars (slot : Nat) (dir : TransferItem) (left completed : List TransferItem) :
    Task Client → Prop
  | .perform own job => own = slot ∧ job.item = dir
  | .done (.itemDone own) => own = slot ∧ DirsDone left completed
  | .done (.error _ own) => own = slot
  | .done .next | .done (.conflict _ _ _) => False

/-- What has left the queue: all directories but the last item are completed, and that one too
unless it is a directory whose barrier stands. -/
structure Drawn (transfer : TransferState Client) (launched completed : List TransferItem)
    (tasks : List (Task Client)) (left : List TransferItem) : Prop where
  whole : launched = left ++ transfer.queue
  unbarred : transfer.dirSlot = none → DirsDone left completed
  barred : ∀ slot, transfer.dirSlot = some slot → ∃ before dir, left = before ++ [dir] ∧
    dir.isDir ∧ DirsDone before completed ∧ ∃ task ∈ tasks, task.Bars slot dir left completed

/-- No two tasks are to report on one slot; one that has an item keeps its slot busy; and what has
left the queue left it in order. -/
structure Lanes (transfer : TransferState Client) (launched completed : List TransferItem)
    (tasks : List (Task Client)) : Prop where
  distinct : (tasks.filterMap Task.slot).Nodup
  busy : ∀ task ∈ tasks, ∀ slot ∈ task.occupies, transfer.busySlots[slot]? = some true
  staffed : ∀ task ∈ tasks, ∀ slot ∈ task.mayPark, transfer.clients[slot]?.isSome
  files : ∀ prompt item slot, Task.done (.conflict prompt item slot) ∈ tasks → item.isDir = false
  behind : ∀ task ∈ tasks, ∀ item ∈ task.item, Behind launched completed item
  parked : ∀ item ∈ transfer.pendingConflictItem, item.isDir = false ∧
    Behind launched completed item ∧ transfer.paused = true ∧
    ∃ slot, transfer.pendingConflictSlot = some slot ∧ slot < transfer.busySlots.length ∧
      transfer.clients[slot]?.isSome ∧ slot ∉ tasks.filterMap Task.slot
  drawn : transfer.queue = [] ∨ ∃ left, Drawn transfer launched completed tasks left

section Slots

variable {transfer : TransferState Client} {launched completed : List TransferItem}
  {tasks others : List (Task Client)}

variable {left : List TransferItem}

theorem Drawn.of_mem (drawn : Drawn transfer launched completed tasks left)
    (kept : ∀ slot dir, transfer.dirSlot = some slot → ∀ task ∈ tasks,
      task.Bars slot dir left completed → ∃ other ∈ others, other.Bars slot dir left completed) :
    Drawn transfer launched completed others left where
  whole := drawn.whole
  unbarred := drawn.unbarred
  barred := fun slot isBarred => by
    obtain ⟨before, dir, isLeft, directory, done, task, member, bars⟩ := drawn.barred slot isBarred
    exact ⟨before, dir, isLeft, directory, done, kept slot dir isBarred task member bars⟩

theorem Lanes.perm (lanes : Lanes transfer launched completed tasks) (same : tasks.Perm others) :
    Lanes transfer launched completed others where
  distinct := (same.filterMap Task.slot).nodup_iff.mp lanes.distinct
  busy := fun task member => lanes.busy task (same.mem_iff.mpr member)
  staffed := fun task member => lanes.staffed task (same.mem_iff.mpr member)
  files := fun prompt item slot member => lanes.files prompt item slot (same.mem_iff.mpr member)
  behind := fun task member => lanes.behind task (same.mem_iff.mpr member)
  parked := fun item isParked => by
    obtain ⟨isFile, behind, paused, slot, isSlot, within, staffed, free⟩ :=
      lanes.parked item isParked
    exact ⟨isFile, behind, paused, slot, isSlot, within, staffed, fun taken =>
      free ((same.filterMap Task.slot).mem_iff.mpr taken)⟩
  drawn := lanes.drawn.imp_right fun ⟨left, drawn⟩ => ⟨left, drawn.of_mem
    fun _ _ _ task member bars => ⟨task, same.mem_iff.mp member, bars⟩⟩

variable {task : Task Client}

variable {after : TransferState Client}

/-- A task is handled that has no slot, or frees its own. -/
theorem Lanes.drop (lanes : Lanes transfer launched completed (task :: tasks))
    (busySlots : ∀ other ∈ tasks, ∀ slot ∈ other.occupies, after.busySlots[slot]? = some true)
    (length : after.busySlots.length = transfer.busySlots.length)
    (clients : after.clients = transfer.clients) (queue : after.queue = transfer.queue)
    (paused : after.paused = transfer.paused)
    (item : after.pendingConflictItem = transfer.pendingConflictItem)
    (slot : after.pendingConflictSlot = transfer.pendingConflictSlot)
    (drawn : ∀ left, Drawn transfer launched completed (task :: tasks) left →
      Drawn after launched completed tasks left) :
    Lanes after launched completed tasks where
  distinct := lanes.distinct.sublist ((sublist_cons_self task tasks).filterMap Task.slot)
  busy := busySlots
  staffed := fun other member => by
    rw [clients]
    exact lanes.staffed other (.tail _ member)
  files := fun prompt item slot member => lanes.files prompt item slot (.tail _ member)
  behind := fun other member => lanes.behind other (.tail _ member)
  parked := fun one isParked => by
    rw [item] at isParked
    rw [paused, slot, length, clients]
    obtain ⟨isFile, behind, isPaused, own, isSlot, within, staffed, free⟩ :=
      lanes.parked one isParked
    exact ⟨isFile, behind, isPaused, own, isSlot, within, staffed, fun taken => free
      (((sublist_cons_self task tasks).filterMap Task.slot).subset taken)⟩
  drawn := by
    rw [queue]
    exact lanes.drawn.imp_right fun ⟨left, before⟩ => ⟨left, drawn left before⟩

theorem Lanes.drop_next (lanes : Lanes transfer launched completed (.done .next :: tasks)) :
    Lanes transfer launched completed tasks := by
  refine lanes.drop (fun other member => lanes.busy other (.tail _ member)) rfl rfl rfl rfl rfl rfl
    fun left drawn => drawn.of_mem fun slot dir _ task member bars => ?_
  cases member with
  | head => exact bars.elim
  | tail _ member => exact ⟨task, member, bars⟩

variable {slot : Nat}

theorem slot_of_bars {dir : TransferItem} (bars : task.Bars slot dir left completed) :
    task.slot = some slot := by
  match task with
  | .perform own job => exact congrArg some bars.1
  | .done (.itemDone own) => exact congrArg some bars.1
  | .done (.error error own) => exact congrArg some bars
  | .done .next | .done (.conflict _ _ _) => exact bars.elim

/-- The first task's slot has no other. -/
theorem Lanes.free_of_cons (lanes : Lanes transfer launched completed (task :: tasks))
    (reports : task.slot = some slot) :
    slot ∉ tasks.filterMap Task.slot := by
  have distinct := lanes.distinct
  rw [filterMap_cons_some reports] at distinct
  exact (nodup_cons.mp distinct).1

theorem mem_slots (member : task ∈ tasks) (reports : task.slot = some slot) :
    slot ∈ tasks.filterMap Task.slot :=
  mem_filterMap.mpr ⟨task, member, reports⟩

/-- The report that an item is done frees its slot, and lifts the barrier where it is a
directory's. -/
theorem Lanes.itemDone (lanes : Lanes transfer launched completed (.done (.itemDone slot) :: tasks)) :
    Lanes (transfer.itemDone slot) launched completed tasks := by
  have free := lanes.free_of_cons rfl
  refine lanes.drop (busy_set free fun other member => lanes.busy other (.tail _ member))
    (length_set ..) rfl rfl rfl rfl rfl fun left drawn => ⟨drawn.whole, fun lifted => ?_,
      fun own isBarred => ?_⟩
  · change (if transfer.dirSlot = some slot then none else transfer.dirSlot) = none at lifted
    split_ifs at lifted with barred
    · obtain ⟨before, dir, isLeft, directory, done, task, member, bars⟩ := drawn.barred slot barred
      cases member with
      | head => exact bars.2
      | tail _ member => exact absurd (mem_slots member (slot_of_bars bars)) free
    · exact drawn.unbarred lifted
  · change (if transfer.dirSlot = some slot then none else transfer.dirSlot) = some own at isBarred
    split_ifs at isBarred with barred
    obtain ⟨before, dir, isLeft, directory, done, task, member, bars⟩ := drawn.barred own isBarred
    cases member with
    | head => exact absurd (isBarred.trans (congrArg some bars.1.symm)) barred
    | tail _ member => exact ⟨before, dir, isLeft, directory, done, task, member, bars⟩

variable {item : TransferItem}

/-- A file whose name is taken is parked. -/
theorem Lanes.park {prompt : OverwritePrompt}
    (lanes : Lanes transfer launched completed (.done (.conflict prompt item slot) :: tasks)) :
    Lanes (transfer.park item slot) launched completed tasks where
  distinct := lanes.distinct.sublist ((sublist_cons_self _ tasks).filterMap Task.slot)
  busy := busy_set (lanes.free_of_cons rfl) fun other member => lanes.busy other (.tail _ member)
  staffed := fun other member => lanes.staffed other (.tail _ member)
  files := fun one file own member => lanes.files one file own (.tail _ member)
  behind := fun other member => lanes.behind other (.tail _ member)
  parked := fun one isParked => by
    cases isParked
    refine ⟨lanes.files prompt item slot (.head _), lanes.behind _ (.head _) item rfl, rfl, slot,
      rfl, ?_, lanes.staffed _ (.head _) slot rfl, lanes.free_of_cons rfl⟩
    show slot < (transfer.busySlots.set slot false).length
    rw [length_set]
    exact (List.getElem?_eq_some_iff.mp (lanes.busy _ (.head _) slot rfl)).1
  drawn := lanes.drawn.imp_right fun ⟨left, drawn⟩ => by
    refine ⟨left, drawn.whole, drawn.unbarred, fun own isBarred => ?_⟩
    obtain ⟨before, dir, isLeft, directory, done, task, member, bars⟩ := drawn.barred own isBarred
    cases member with
    | head => exact bars.elim
    | tail _ member => exact ⟨before, dir, isLeft, directory, done, task, member, bars⟩

/-- When an item is started, and where. -/
theorem start_cases {started : TransferState Client} (starts : transfer.next = .start started task) :
    ∃ slot item queue, transfer.busySlots[slot]? = some false ∧ transfer.queue = item :: queue ∧
      started = transfer.startItem slot item queue ∧ task = started.itemTask slot item ∧
      transfer.paused = false ∧ transfer.dirSlot = none ∧
      (item.isDir → ∀ flag ∈ transfer.busySlots, flag = false) := by
  unfold TransferState.next at starts
  by_cases paused : transfer.paused
  · rw [if_pos paused] at starts
    cases starts
  by_cases barred : transfer.dirSlot.isSome
  · rw [if_neg paused, if_pos barred] at starts
    cases starts
  by_cases drains : transfer.queue.head?.any (·.isDir) && transfer.busySlots.any id
  · rw [if_neg paused, if_neg barred, if_pos drains] at starts
    cases starts
  rw [if_neg paused, if_neg barred, if_neg drains] at starts
  cases idle : transfer.busySlots.findIdx? (!·) with
  | none =>
    rw [idle] at starts
    cases starts
  | some slot =>
    simp only [idle] at starts
    cases waiting : transfer.queue with
    | nil =>
      simp only [waiting] at starts
      split_ifs at starts
    | cons item queue =>
      rw [waiting] at starts
      cases starts
      obtain ⟨within, isFree, _⟩ := findIdx?_eq_some_iff_getElem.mp idle
      refine ⟨slot, item, queue, ?_, rfl, rfl, rfl, Bool.eq_false_iff.mpr paused,
        Option.not_isSome_iff_eq_none.mp barred, fun isDir flag member => ?_⟩
      · rw [getElem?_eq_getElem within]
        simpa using isFree
      · refine Bool.eq_false_iff.mpr fun isBusy => drains ?_
        rw [waiting, Bool.and_eq_true]
        exact ⟨isDir, any_eq_true.mpr ⟨flag, member, isBusy⟩⟩

/-- An idle slot in which no report is still to be handled has no task. -/
theorem Lanes.free_of_idle (lanes : Lanes transfer launched completed tasks)
    (idle : transfer.busySlots[slot]? = some false)
    (spaced : ∀ other ∈ tasks, other.frees slot = false) :
    slot ∉ tasks.filterMap Task.slot := by
  intro taken
  obtain ⟨task, member, isSlot⟩ := mem_filterMap.mp taken
  have busy := lanes.busy task member slot
  match task with
  | .perform own job => cases idle.symm.trans (busy isSlot)
  | .done (.conflict _ _ _) => cases idle.symm.trans (busy isSlot)
  | .done (.error _ _) => cases idle.symm.trans (busy isSlot)
  | .done (.itemDone own) =>
    cases isSlot
    exact absurd (spaced _ member) (by rw [Task.frees, decide_eq_true rfl]; decide)
  | .done .next => cases isSlot

variable {queue : List TransferItem}

theorem behind_of_next (drawn : Drawn transfer launched completed tasks left)
    (waiting : transfer.queue = item :: queue) (unbarred : transfer.dirSlot = none) :
    Behind launched completed item :=
  ⟨left, queue, by rw [drawn.whole, waiting], drawn.unbarred unbarred⟩

theorem itemTask_bars (transfer : TransferState Client) (slot : Nat) (item : TransferItem)
    (left completed : List TransferItem) :
    (transfer.itemTask slot item).Bars slot item left completed := by
  rcases itemTask_cases transfer slot item with ⟨job, isItem, _, isTask⟩ | ⟨error, isTask⟩
  · rw [isTask]
    exact ⟨rfl, isItem⟩
  · rw [isTask]
    rfl

/-- The next item is started. -/
theorem Lanes.start (lanes : Lanes transfer launched completed tasks)
    (waiting : transfer.queue = item :: queue) (idle : transfer.busySlots[slot]? = some false)
    (free : slot ∉ tasks.filterMap Task.slot) (running : transfer.paused = false)
    (unbarred : transfer.dirSlot = none) :
    Lanes (transfer.startItem slot item queue) launched completed
      ((transfer.startItem slot item queue).itemTask slot item :: tasks) := by
  have within : slot < transfer.busySlots.length := (List.getElem?_eq_some_iff.mp idle).1
  have taken : (transfer.busySlots.set slot true)[slot]? = some true :=
    getElem?_set_self within
  obtain ⟨left, drawn⟩ := lanes.drawn.resolve_left (by rw [waiting]; exact cons_ne_nil _ _)
  have behind := behind_of_next drawn waiting unbarred
  have reports := slot_itemTask (transfer.startItem slot item queue) slot item
  have bars := itemTask_bars (transfer.startItem slot item queue) slot item (left ++ [item])
    completed
  have task : (∀ own ∈ Task.occupies ((transfer.startItem slot item queue).itemTask slot item),
        own = slot) ∧
      (∀ own ∈ Task.mayPark ((transfer.startItem slot item queue).itemTask slot item),
        transfer.clients[own]?.isSome) ∧
      (∀ own ∈ Task.item ((transfer.startItem slot item queue).itemTask slot item), own = item) ∧
      ∀ prompt file own, Task.done (.conflict prompt file own) ≠
        (transfer.startItem slot item queue).itemTask slot item := by
    rcases itemTask_cases (transfer.startItem slot item queue) slot item with
      ⟨job, isItem, staffed, isTask⟩ | ⟨error, isTask⟩
    · rw [isTask]
      refine ⟨fun own isOwn => (Option.some.inj isOwn).symm, staffed, fun own isOwn => ?_,
        fun _ _ _ same => by cases same⟩
      exact (Option.some.inj isOwn).symm.trans isItem
    · rw [isTask]
      exact ⟨fun own isOwn => (Option.some.inj isOwn).symm,
        fun _ none => absurd none (Option.not_mem_none _),
        fun _ none => absurd none (Option.not_mem_none _), fun _ _ _ same => by cases same⟩
  generalize (transfer.startItem slot item queue).itemTask slot item = begun at reports bars task ⊢
  obtain ⟨occupies, staffed, isItem, noConflict⟩ := task
  refine ⟨?_, ?_, ?_, ?_, ?_, fun one isParked => ?_, ?_⟩
  · rw [filterMap_cons_some reports]
    exact nodup_cons.mpr ⟨free, lanes.distinct⟩
  · refine forall_mem_cons.mpr ⟨fun own isOwn => ?_, busy_set free lanes.busy⟩
    rw [occupies own isOwn]
    exact taken
  · exact forall_mem_cons.mpr ⟨staffed, lanes.staffed⟩
  · intro prompt file own member
    exact (mem_cons.mp member).elim (fun same => absurd same (noConflict prompt file own))
      (lanes.files prompt file own)
  · refine forall_mem_cons.mpr ⟨fun own isOwn => ?_, lanes.behind⟩
    rw [isItem own isOwn]
    exact behind
  · obtain ⟨_, _, paused, _⟩ := lanes.parked one isParked
    exact absurd (running.symm.trans paused) (by decide)
  · refine .inr ⟨left ++ [item], ?_, fun lifted => ?_, fun own isBarred => ?_⟩
    · rw [drawn.whole, waiting, append_assoc]
      rfl
    · change (if item.isDir then some slot else transfer.dirSlot) = none at lifted
      split_ifs at lifted with isDir
      exact (drawn.unbarred unbarred).append_file (Bool.eq_false_iff.mpr isDir)
    · change (if item.isDir then some slot else transfer.dirSlot) = some own at isBarred
      split_ifs at isBarred with isDir
      · cases isBarred
        exact ⟨left, item, rfl, isDir, drawn.unbarred unbarred, begun, .head _, bars⟩
      · cases unbarred.symm.trans isBarred

/-- A worker ends with its report. -/
theorem Lanes.finish {job : Job Client} {message : TransferMessage}
    (lanes : Lanes transfer launched completed (.perform slot job :: tasks))
    (reports : Reports slot job message) :
    Lanes transfer launched
      (completed ++ if message = .itemDone slot then [job.item] else [])
      (.done message :: tasks) := by
  have free := lanes.free_of_cons rfl
  have isSlot : (Task.done message : Task Client).slot = some slot := by cases reports <;> rfl
  refine ⟨?_, ?_, ?_, ?_, ?_, fun one isParked => ?_, ?_⟩
  · rw [filterMap_cons_some isSlot]
    exact lanes.distinct
  · refine forall_mem_cons.mpr ⟨fun own isOwn => ?_, fun other member =>
      lanes.busy other (.tail _ member)⟩
    refine lanes.busy _ (.head _) own ?_
    exact isSlot.symm.trans (Task.slot_of_occupies isOwn)
  · refine forall_mem_cons.mpr ⟨fun own isOwn => ?_, fun other member =>
      lanes.staffed other (.tail _ member)⟩
    cases reports with
    | done => cases isOwn
    | failed error => cases isOwn
    | conflict prompt asks isFile pane =>
      refine lanes.staffed _ (.head _) own ?_
      rw [asks]
      exact isOwn
  · intro prompt file own member
    cases member with
    | tail _ member => exact lanes.files prompt file own (.tail _ member)
    | head =>
      cases reports with
      | conflict prompt asks isFile pane => exact isFile
  · refine forall_mem_cons.mpr ⟨fun own isOwn => ?_, fun other member own isOwn =>
      (lanes.behind other (.tail _ member) own isOwn).mono _⟩
    cases reports with
    | done => cases isOwn
    | failed error => cases isOwn
    | conflict prompt asks isFile pane =>
      cases isOwn
      exact (lanes.behind _ (.head _) job.item rfl).mono _
  · obtain ⟨isFile, behind, paused, own, isOwn, within, staffed, apart⟩ :=
      lanes.parked one isParked
    refine ⟨isFile, behind.mono _, paused, own, isOwn, within, staffed, ?_⟩
    rw [filterMap_cons_some isSlot]
    exact apart
  · refine lanes.drawn.imp_right fun ⟨left, drawn⟩ => ⟨left, drawn.whole, fun lifted =>
      (drawn.unbarred lifted).mono _, fun own isBarred => ?_⟩
    obtain ⟨before, dir, isLeft, directory, done, task, member, bars⟩ := drawn.barred own isBarred
    refine ⟨before, dir, isLeft, directory, done.mono _, ?_⟩
    cases member with
    | tail _ member =>
      refine ⟨task, .tail _ member, ?_⟩
      match task with
      | .perform _ _ | .done (.error _ _) => exact bars
      | .done (.itemDone _) => exact ⟨bars.1, bars.2.mono _⟩
      | .done .next | .done (.conflict _ _ _) => exact bars.elim
    | head =>
      obtain ⟨here, isDir⟩ := bars
      refine ⟨.done message, .head _, ?_⟩
      cases reports with
      | failed error => exact here
      | done =>
        refine ⟨here, ?_⟩
        rw [if_pos rfl, isLeft, isDir]
        exact done.append_same [dir]
      | conflict prompt asks isFile pane =>
        rw [isDir, directory] at isFile
        cases isFile

/-- A question is answered of which nothing is parked. -/
theorem Lanes.unpark (lanes : Lanes transfer launched completed tasks) (action : OverwriteAction)
    (applyToAll : Bool) : Lanes (transfer.unpark action applyToAll) launched completed tasks where
  distinct := lanes.distinct
  busy := lanes.busy
  staffed := lanes.staffed
  files := lanes.files
  behind := lanes.behind
  parked := fun _ none => absurd none (Option.not_mem_none _)
  drawn := lanes.drawn.imp_right fun ⟨left, drawn⟩ => ⟨left, drawn.whole, drawn.unbarred,
    drawn.barred⟩

/-- The item of an answer is skipped, or started again in its slot. -/
theorem Lanes.answer (lanes : Lanes transfer launched completed tasks)
    (isParked : transfer.pendingConflictItem = some item)
    (isSlot : transfer.pendingConflictSlot = some slot) (reports : task.slot = some slot)
    (busySlots : after.busySlots = transfer.busySlots ∧ task.occupies = none ∨
      after.busySlots = transfer.busySlots.set slot true) (mayPark : task.mayPark = none)
    (isItem : ∀ one ∈ task.item, one = item)
    (noConflict : ∀ prompt file own, Task.done (.conflict prompt file own) ≠ task)
    (unparked : after.pendingConflictItem = none) (clients : after.clients = transfer.clients)
    (dirSlot : after.dirSlot = transfer.dirSlot)
    (queue : after.queue = [] ∨ after.queue = transfer.queue) :
    Lanes after launched completed (task :: tasks) := by
  obtain ⟨_, behind, _, own, isOwn, within, _, free⟩ := lanes.parked item isParked
  cases isSlot.symm.trans isOwn
  refine ⟨?_, ?_, ?_, ?_, ?_, fun one isOne => ?_, ?_⟩
  · rw [filterMap_cons_some reports]
    exact nodup_cons.mpr ⟨free, lanes.distinct⟩
  · rcases busySlots with ⟨same, idle⟩ | set
    · rw [same]
      refine forall_mem_cons.mpr ⟨fun other isOther => ?_, lanes.busy⟩
      rw [idle] at isOther
      cases isOther
    · rw [set]
      refine forall_mem_cons.mpr ⟨fun other isOther => ?_, busy_set free lanes.busy⟩
      cases reports.symm.trans (Task.slot_of_occupies isOther)
      exact getElem?_set_self within
  · refine forall_mem_cons.mpr ⟨fun other isOther => ?_, fun other member => ?_⟩
    · rw [mayPark] at isOther
      cases isOther
    · rw [clients]
      exact lanes.staffed other member
  · intro prompt file other member
    exact (mem_cons.mp member).elim (fun same => absurd same (noConflict prompt file other))
      (lanes.files prompt file other)
  · refine forall_mem_cons.mpr ⟨fun one isOne => ?_, lanes.behind⟩
    rw [isItem one isOne]
    exact behind
  · rw [unparked] at isOne
    cases isOne
  · rcases queue with empty | same
    · exact .inl empty
    · rw [same]
      refine lanes.drawn.imp_right fun ⟨left, drawn⟩ => ⟨left, ?_, ?_, ?_⟩
      · rw [same]
        exact drawn.whole
      · rw [dirSlot]
        exact drawn.unbarred
      · rw [dirSlot]
        intro other isBarred
        obtain ⟨before, dir, isLeft, directory, done, lifter, member, bars⟩ :=
          drawn.barred other isBarred
        exact ⟨before, dir, isLeft, directory, done, lifter, .tail _ member, bars⟩

theorem Lanes.cons_next (lanes : Lanes transfer launched completed tasks) :
    Lanes transfer launched completed (.done .next :: tasks) where
  distinct := lanes.distinct
  busy := forall_mem_cons.mpr ⟨fun _ none => absurd none (Option.not_mem_none _), lanes.busy⟩
  staffed := forall_mem_cons.mpr
    ⟨fun _ none => absurd none (Option.not_mem_none _), lanes.staffed⟩
  files := fun prompt item slot member => by
    cases member with
    | tail _ member => exact lanes.files prompt item slot member
  behind := forall_mem_cons.mpr
    ⟨fun _ none => absurd none (Option.not_mem_none _), lanes.behind⟩
  parked := lanes.parked
  drawn := lanes.drawn.imp_right fun ⟨left, drawn⟩ => ⟨left, drawn.of_mem
    fun _ _ _ task member bars => ⟨task, .tail _ member, bars⟩⟩

theorem Lanes.append_nexts (lanes : Lanes transfer launched completed tasks) (count : Nat) :
    Lanes transfer launched completed (tasks ++ Owner.nexts count) := by
  have front : Lanes transfer launched completed (Owner.nexts count ++ tasks) := by
    induction count with
    | zero => exact lanes
    | succ count inductionHypothesis => exact inductionHypothesis.cons_next
  exact front.perm perm_append_comm

end Slots

theorem filterMap_slot_nexts (count : Nat) :
    (Owner.nexts count : List (Task Client)).filterMap Task.slot = [] := by
  refine filterMap_eq_nil_iff.mpr fun task member => ?_
  rw [eq_of_mem_replicate member]
  rfl

/-- The transfer that is under way, if one is, keeps its lanes. -/
def Owner.KeepsLanes (owner : Owner Client) (completed : List TransferItem) : Prop :=
  ∀ transfer ∈ owner.state, Lanes transfer owner.launched completed owner.mail

variable {owner : Owner Client}

variable {message : TransferMessage}

/-- A transfer that has ended hears what its workers report, and starts nothing. -/
theorem slots_receive_of_ended (ended : (owner.receive message).state = none) :
    (owner.receive message).mail.filterMap Task.slot = owner.mail.filterMap Task.slot := by
  cases message with
  | next =>
    rw [Owner.receive, Owner.next] at ended ⊢
    cases isState : owner.state with
    | none => rfl
    | some transfer =>
      rw [isState] at ended
      dsimp only at ended ⊢
      cases turn : transfer.next with
      | wait => rfl
      | finalize sources client =>
        dsimp only
        rw [Owner.mail, (finalize_rest owner sources client).2.2]
        rfl
      | start begun task =>
        rw [turn] at ended
        cases ended
  | itemDone slot =>
    rw [Owner.receive, Owner.itemDone] at ended ⊢
    cases isState : owner.state with
    | none =>
      dsimp only
      rw [mail_start, filterMap_append, filterMap_slot_nexts, append_nil]
    | some transfer =>
      rw [isState] at ended
      cases ended
  | conflict prompt item slot => rfl
  | error error slot => rfl

theorem Owner.KeepsLanes.receive {rest : Owner Client} {completed : List TransferItem}
    (keepsLanes : owner.KeepsLanes completed) (state : rest.state = owner.state)
    (launched : rest.launched = owner.launched)
    (mail : owner.mail.Perm (.done message :: rest.mail))
    (spaced : message = .next → ∀ transfer ∈ owner.state, ∀ slot ∈ transfer.startSlot,
      ∀ other ∈ owner.mail, other.frees slot = false) :
    (rest.receive message).KeepsLanes completed := by
  intro current isCurrent
  cases isState : rest.state with
  | none =>
    rw [receive_of_none isState] at isCurrent
    cases isCurrent
  | some transfer =>
    have isTransfer : owner.state = some transfer := state ▸ isState
    have before := (keepsLanes transfer isTransfer).perm mail
    rw [← launched] at before
    cases message with
    | next =>
      rw [Owner.receive, Owner.next, isState] at isCurrent ⊢
      dsimp only at isCurrent ⊢
      cases turn : transfer.next with
      | wait =>
        rw [turn] at isCurrent
        cases isState.symm.trans isCurrent
        exact before.drop_next
      | finalize sources client =>
        simp only [turn] at isCurrent
        rw [(finalize_rest rest _ _).1] at isCurrent
        cases isCurrent
      | start begun task =>
        rw [turn] at isCurrent
        cases isCurrent
        obtain ⟨slot, item, queue, idle, waiting, rfl, rfl, running, unbarred, _⟩ :=
          start_cases turn
        have starts : transfer.startSlot = some slot := by
          rw [TransferState.startSlot, turn]
          exact slot_itemTask _ slot item
        have apart := spaced rfl transfer isTransfer slot starts
        have free := before.drop_next.free_of_idle idle fun other member =>
          apart other (mail.mem_iff.mpr (.tail _ member))
        show Lanes _ rest.launched completed (Owner.mail (Owner.start _ _))
        rw [mail_start]
        exact (before.drop_next.start waiting idle free running unbarred).perm
          (perm_append_singleton _ _).symm
    | itemDone slot =>
      rw [Owner.receive, Owner.itemDone, isState] at isCurrent ⊢
      cases isCurrent
      show Lanes _ rest.launched completed (Owner.mail (Owner.start _ _))
      rw [mail_start]
      exact before.itemDone.append_nexts _
    | conflict one item slot =>
      obtain ⟨parked, isParked, rfl⟩ := Option.map_eq_some_iff.mp isCurrent
      cases isState.symm.trans isParked
      exact before.park
    | error error slot => cases isCurrent

theorem Owner.KeepsLanes.resolve {completed : List TransferItem}
    (keepsLanes : owner.KeepsLanes completed) (action : OverwriteAction)
    (paneClient : Option Client) :
    (owner.resolveOverwrite action paneClient).KeepsLanes completed := by
  cases isPrompt : owner.overwritePrompt with
  | none =>
    rw [Owner.resolveOverwrite, isPrompt]
    exact keepsLanes
  | some prompt =>
    cases isState : owner.state with
    | none =>
      rw [Owner.resolveOverwrite, isPrompt]
      dsimp only
      rw [isState]
      split_ifs <;> exact fun current none => absurd none (Option.not_mem_none _)
    | some transfer =>
      have before := keepsLanes transfer isState
      cases pane : prompt.dropUploadPane with
      | some other =>
        rw [Owner.resolveOverwrite, isPrompt]
        dsimp only
        rw [pane, if_pos (Option.isSome_some)]
        intro current isCurrent
        exact keepsLanes current isCurrent
      | none =>
        cases isParked : transfer.pendingConflictItem with
        | none =>
          rw [Owner.resolveOverwrite, isPrompt]
          dsimp only
          rw [pane, if_neg (by decide)]
          simp only [isState, isParked]
          intro current isCurrent
          cases isCurrent
          exact before.unpark action prompt.applyToAll
        | some item =>
          obtain ⟨_, _, _, slot, isSlot, _, staffed, _⟩ := before.parked item isParked
          rw [resolveOverwrite_of_parked isPrompt pane isState isParked, isSlot, Option.getD_some]
          split_ifs with skips
          · intro current isCurrent
            show Lanes current owner.launched completed (Owner.mail (Owner.start _ _))
            rw [mail_start]
            have same : current.busySlots = transfer.busySlots ∧
                current.dirSlot = transfer.dirSlot ∧ current.pendingConflictItem = none ∧
                current.clients = transfer.clients ∧
                (current.queue = [] ∨ current.queue = transfer.queue) := by
              cases isCurrent
              cases prompt.applyToAll
              · exact ⟨rfl, rfl, rfl, rfl, .inr rfl⟩
              · exact ⟨rfl, rfl, rfl, rfl, .inl rfl⟩
            obtain ⟨busySlots, dirSlot, unparked, clients, queue⟩ := same
            have answered : Lanes current owner.launched completed
                (.done (.itemDone slot) :: owner.mail) :=
              before.answer isParked isSlot rfl (.inl ⟨busySlots, rfl⟩) rfl
                (fun _ none => absurd none (Option.not_mem_none _))
                (fun _ _ _ same => by cases same) unparked clients dirSlot queue
            exact (answered.append_nexts (transfer.busySlots.length - 1)).perm
              perm_middle.symm
          · obtain ⟨client, isClient⟩ := Option.isSome_iff_exists.mp staffed
            have staff : (transfer.unpark action prompt.applyToAll).clients[slot]? = some client :=
              isClient
            rw [Owner.applyParked, staff]
            intro current isCurrent
            cases isCurrent
            show Lanes _ owner.launched completed (Owner.mail (Owner.start _ _))
            rw [mail_start]
            have answered : Lanes
                { transfer.unpark action prompt.applyToAll with
                  busySlots := transfer.busySlots.set slot true }
                owner.launched completed
                (.perform slot (.applyOverwrite prompt.direction client item action) ::
                  owner.mail) :=
              before.answer isParked isSlot rfl (.inr rfl) rfl
                (fun one isOne => (Option.some.inj isOne).symm)
                (fun _ _ _ same => by cases same) rfl rfl rfl (.inr rfl)
            exact (answered.append_nexts (transfer.busySlots.length - 1)).perm
              perm_middle.symm

variable {watched : Watched Client}

variable {next : Watched Client} {action : WatchedAction Client}

theorem Owner.KeepsLanes.step (keepsLanes : watched.owner.KeepsLanes watched.done)
    (own : action.IsOwn) (spaced : Spaced watched action)
    (stepped : watching.step watched action = some next) : next.owner.KeepsLanes next.done := by
  cases ownMove_of_step own stepped with
  | receive index started message isAction found isMessage mail isOwner completed =>
    subst isAction
    rw [isOwner, Watched.done, completed]
    exact keepsLanes.receive rfl rfl mail fun isNext =>
      spaced started found (by rw [isMessage, isNext]; rfl)
  | finish index slot job message mail after reports state prompt launched completed =>
    intro transfer isState
    rw [state] at isState
    rw [launched, Watched.done, completed]
    exact (((keepsLanes transfer isState).perm mail).finish reports).perm after.symm
  | toggle mail state prompt launched completed =>
    intro transfer isState
    rw [state] at isState
    rw [launched, mail, Watched.done, completed]
    exact keepsLanes transfer isState
  | resolve action paneClient isOwner completed =>
    rw [isOwner, Watched.done, completed]
    exact keepsLanes.resolve action paneClient

theorem keepsLanes_launchedWith (sidebar : Bool) (launch : Launch Client) :
    (Watched.launchedWith sidebar launch).owner.KeepsLanes [] := by
  intro transfer isState
  cases isState
  show Lanes launch.state launch.queue [] (Owner.mail (Owner.start _ (Owner.nexts _)))
  rw [mail_start]
  refine Lanes.append_nexts ?_ _
  have fresh : launch.state.queue = launch.queue ∧ launch.state.pendingConflictItem = none ∧
      launch.state.dirSlot = none := by
    cases launch with
    | batch kind queue clients slots => exact ⟨rfl, rfl, rfl⟩
    | relay queue source dest moveSource => cases moveSource <;> exact ⟨rfl, rfl, rfl⟩
  obtain ⟨queue, unparked, unbarred⟩ := fresh
  refine ⟨nodup_nil, forall_mem_nil _,
    forall_mem_nil _, fun _ _ _ none => absurd none not_mem_nil,
    forall_mem_nil _, fun item isParked => ?_, .inr ⟨[], ?_, ?_, ?_⟩⟩
  · rw [unparked] at isParked
    cases isParked
  · rw [queue]
    rfl
  · exact fun _ item _ => Nat.le_refl _
  · intro slot isBarred
    rw [unbarred] at isBarred
    cases isBarred

theorem flightSlots_sublist (tasks : List (Task Client)) :
    (tasks.filterMap Task.flightSlot).Sublist (tasks.filterMap Task.slot) := by
  induction tasks with
  | nil => exact Sublist.refl _
  | cons task tasks inductionHypothesis =>
    cases flies : task.isInFlight with
    | false =>
      rw [filterMap_cons_none (show task.flightSlot = none by rw [Task.flightSlot, flies]; rfl)]
      refine inductionHypothesis.trans ?_
      exact (sublist_cons_self task tasks).filterMap Task.slot
    | true =>
      have same : task.flightSlot = task.slot := by rw [Task.flightSlot, flies, if_pos rfl]
      rw [filterMap_cons, filterMap_cons, same]
      cases task.slot with
      | none => exact inductionHypothesis
      | some slot => exact inductionHypothesis.cons_cons slot

/-- The lanes of a transfer, and that no two tasks are to report on one slot when it is over. -/
structure Watched.InLanes (watched : Watched Client) : Prop where
  distinct : (watched.owner.mail.filterMap Task.slot).Nodup
  keeps : watched.owner.KeepsLanes watched.done

theorem mail_resolveOverwrite_of_ended {action : OverwriteAction} {paneClient : Option Client}
    (ended : (owner.resolveOverwrite action paneClient).state = none) :
    (owner.resolveOverwrite action paneClient).mail = owner.mail := by
  unfold Owner.resolveOverwrite at ended ⊢
  split
  · rfl
  · rename_i prompt isPrompt
    rw [isPrompt] at ended
    dsimp only at ended ⊢
    by_cases pane : prompt.dropUploadPane.isSome
    · rw [if_pos pane]
      rfl
    · rw [if_neg pane] at ended ⊢
      cases isState : owner.state with
      | none => rfl
      | some transfer =>
        simp only [isState] at ended
        split at ended
        · cases ended
        · split at ended
          · cases ended
          · unfold Owner.applyParked at ended
            split at ended <;> cases ended

theorem Watched.InLanes.step (inLanes : watched.InLanes) (own : action.IsOwn)
    (spaced : Spaced watched action) (stepped : watching.step watched action = some next) :
    next.InLanes := by
  have keeps := inLanes.keeps.step own spaced stepped
  refine ⟨?_, keeps⟩
  cases isState : next.owner.state with
  | some transfer => exact (keeps transfer isState).distinct
  | none =>
    cases ownMove_of_step own stepped with
    | receive index started message isAction found isMessage mail isOwner completed =>
      rw [isOwner] at isState ⊢
      rw [slots_receive_of_ended isState]
      refine Nodup.sublist ?_ ((mail.filterMap Task.slot).nodup_iff.mp inLanes.distinct)
      exact (sublist_cons_self _ _).filterMap Task.slot
    | finish index slot job message mail after reports state prompt launched completed =>
      have before := (mail.filterMap Task.slot).nodup_iff.mp inLanes.distinct
      refine (after.filterMap Task.slot).nodup_iff.mpr ?_
      have isSlot : (Task.done message : Task Client).slot = some slot := by cases reports <;> rfl
      rw [filterMap_cons_some isSlot]
      exact before
    | toggle mail state prompt launched completed =>
      rw [mail]
      exact inLanes.distinct
    | resolve action paneClient isOwner completed =>
      rw [isOwner] at isState ⊢
      rw [mail_resolveOverwrite_of_ended isState]
      exact inLanes.distinct

theorem Watched.InLanes.barrierHolds (inLanes : watched.InLanes) :
    BarrierHolds watched where
  alone := inLanes.distinct.sublist (flightSlots_sublist _)
  next := fun transfer isState started slot job starts => by
    have lanes := inLanes.keeps transfer isState
    obtain ⟨own, item, queue, idle, waiting, rfl, isTask, running, unbarred, idles⟩ :=
      start_cases starts
    have isItem : job.item = item := by
      rcases itemTask_cases (transfer.startItem own item queue) own item with
        ⟨other, isOther, _, same⟩ | ⟨error, same⟩
      · cases isTask.trans same
        exact isOther
      · cases isTask.trans same
    obtain ⟨left, drawn⟩ := lanes.drawn.resolve_left (by rw [waiting]; exact cons_ne_nil _ _)
    refine ⟨⟨left, ?_, drawn.unbarred unbarred⟩, fun isDir => ⟨fun task member => ?_, ?_⟩⟩
    · rw [drawn.whole, waiting, isItem]
      rfl
    · have free (slot : Nat) (busy : transfer.busySlots[slot]? = some true) : False := by
        cases idles (isItem ▸ isDir) true (mem_of_getElem? busy)
      have busy := lanes.busy task member
      match task with
      | .perform slot job => exact (free slot (busy slot rfl)).elim
      | .done (.conflict _ _ slot) => exact (free slot (busy slot rfl)).elim
      | .done .next | .done (.itemDone _) | .done (.error _ _) => rfl
    · cases parked : transfer.pendingConflictItem with
      | none => rfl
      | some one =>
        obtain ⟨_, _, paused, _⟩ := lanes.parked one parked
        cases running.symm.trans paused
  answer := fun transfer isState item isParked => by
    obtain ⟨isFile, behind, _⟩ := (inLanes.keeps transfer isState).parked item isParked
    exact ⟨isFile, behind⟩

/-- Where no item is handed out in a slot for which the report of a skipped one is still to be
handled, the slots and the barrier hold in every state. -/
theorem barrierHolds_of_run (sidebar : Bool) (launch : Launch Client)
    {actions : List (WatchedAction Client)} {final : Watched Client}
    (spaced : watching.Along (fun watched action => action.IsOwn ∧ Spaced watched action)
      (.launchedWith sidebar launch) actions)
    (ran : watching.run (.launchedWith sidebar launch) actions = some final) :
    BarrierHolds final := by
  have start : (Watched.launchedWith sidebar launch).InLanes := by
    refine ⟨?_, keepsLanes_launchedWith sidebar launch⟩
    show ((Owner.mail (Owner.start _ (Owner.nexts _))).filterMap Task.slot).Nodup
    rw [mail_start, filterMap_append, filterMap_slot_nexts]
    exact nodup_nil
  have inLanes : final.InLanes := Machine.invariant
    (fun _ _ _ inLanes here stepped => inLanes.step here.1 here.2 stepped) start spaced ran
  exact inLanes.barrierHolds

/-- A directory, a file in it whose name is taken, and one that is skipped. -/
theorem barrierHolds_of_run_sample : ∃ final,
    watching.run (.launchedWith false
      (.batch .upload [⟨"/a", "/b", true, none⟩, named "notes", named "plan"] [(), ()] 2))
      [.act (.deliver 0), .act (.deliver 0), .finish 0 vacant, .act (.deliver 0),
        .act (.deliver 0), .act (.deliver 0), .finish 0 taken, .act (.deliver 0),
        .act (.resolveOverwrite .cancel none), .act (.deliver 1)] = some final ∧
    BarrierHolds final := by
  obtain ⟨final, ran⟩ := Option.isSome_iff_exists.mp (show (watching.run (.launchedWith false
    (.batch .upload [⟨"/a", "/b", true, none⟩, named "notes", named "plan"] [(), ()] 2))
      [.act (.deliver 0), .act (.deliver 0), .finish 0 vacant, .act (.deliver 0),
        .act (.deliver 0), .act (.deliver 0), .finish 0 taken, .act (.deliver 0),
        .act (.resolveOverwrite .cancel none), .act (.deliver 1)]).isSome by decide +kernel)
  exact ⟨final, ran, barrierHolds_of_run false _ (by decide +kernel) ran⟩

/-- A name is taken and its file skipped, and before the skip's own report two requests are
handled: the report frees the slot under the second worker. -/
def skippedUnderWay : List (WatchedAction Unit) :=
  [.act (.deliver 0), .act (.deliver 0), .finish 0 taken, .act (.deliver 0),
    .act (.resolveOverwrite .cancel none), .act (.deliver 2), .act (.deliver 1), .act (.deliver 2)]

def fourFiles : Launch Unit :=
  .batch .upload [named "notes", named "plan", named "list", named "map"] [(), ()] 2

theorem two_items_on_one_slot :
    ¬∀ (sidebar : Bool) (launch : Launch Unit) (actions : List (WatchedAction Unit))
      (final : Watched Unit), (∀ action ∈ actions, action.IsOwn) →
        watching.run (.launchedWith sidebar launch) actions = some final → BarrierHolds final := by
  intro always
  have doubled : (watching.run (.launchedWith false fourFiles) skippedUnderWay).any (fun final =>
      !decide (final.owner.mail.filterMap Task.flightSlot).Nodup) = true := by
    decide +kernel
  obtain ⟨final, ran, twice⟩ := (Option.any_eq_true _ _).mp doubled
  rw [Bool.not_eq_true', decide_eq_false_iff_not] at twice
  exact twice (always false fourFiles skippedUnderWay final (by decide) ran).alone

end Oryxis.Transfer

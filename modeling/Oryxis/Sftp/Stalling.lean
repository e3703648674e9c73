/-
This file proves that a transfer left to its own messages never stalls.

A request for the next item that comes while the transfer is paused, behind a directory or with
every slot busy is dropped. Whoever lifts that asks anew: a busy slot has a task that is to report
on it, a directory one that lifts its barrier, and a paused transfer has its item parked and its
question asked. So there is always a worker, a message or a question under way, also where two
workers came to be in one slot.
-/

import Oryxis.Sftp.Conflicts

namespace Oryxis.Transfer

open Library List

variable {Client : Type*}

/-! ### One transfer's own messages -/

/-- What a transfer and its user do: workers end, messages are handled in any order, and the
question is answered. -/
def WatchedAction.IsOwn : WatchedAction Client → Prop
  | .act (.deliver _) | .act .toggleApplyToAll | .act (.resolveOverwrite _ _) | .finish _ _ => True
  | .act (.queueReady _) | .act (.finish _ _) | .act .cancelTransfer | .act (.otherPrompt _) =>
    False

instance : ∀ action : WatchedAction Client, Decidable action.IsOwn
  | .act (.deliver _) | .act .toggleApplyToAll | .act (.resolveOverwrite _ _) | .finish _ _ =>
    isTrue trivial
  | .act (.queueReady _) | .act (.finish _ _) | .act .cancelTransfer | .act (.otherPrompt _) =>
    isFalse id

/-- An owner whose first queue is ready. -/
def Watched.launchedWith (sidebar : Bool) (launch : Launch Client) : Watched Client :=
  ⟨(Owner.initial sidebar).queueReady launch, [], [], []⟩

def Owner.mail (owner : Owner Client) : List (Task Client) := owner.tasks.map Started.task

def Owner.without (owner : Owner Client) (index : Nat) : Owner Client :=
  { owner with tasks := owner.tasks.eraseIdx index }

variable {owner : Owner Client} {index : Nat}

variable {started : Started Client}

theorem mail_without (found : owner.tasks[index]? = some started) :
    owner.mail.Perm (started.task :: (owner.without index).mail) := by
  obtain ⟨within, isStarted⟩ := List.getElem?_eq_some_iff.mp found
  have taken := (getElem_cons_eraseIdx_perm within).symm.map Started.task
  rwa [isStarted] at taken

theorem mail_set {other : Started Client} (found : owner.tasks[index]? = some started) :
    (Owner.mail { owner with tasks := owner.tasks.set index other }).Perm
      (other.task :: (owner.without index).mail) := by
  obtain ⟨within, _⟩ := List.getElem?_eq_some_iff.mp found
  exact (set_perm_cons_eraseIdx within other).map Started.task

theorem mail_start (owner : Owner Client) (tasks : List (Task Client)) :
    (owner.start tasks).mail = owner.mail ++ tasks := by
  show (owner.tasks ++ tasks.map (Started.mk owner.transfer)).map Started.task = _
  rw [map_append, map_map]
  exact congrArg (owner.mail ++ ·) (map_id tasks)

/-- What a worker comes to report on its item. Only a file's name can be taken. -/
inductive Reports (slot : Nat) (job : Job Client) : TransferMessage → Prop
  | done : Reports slot job (.itemDone slot)
  | failed (error : TransferError) : Reports slot job (.error error slot)
  | conflict (prompt : OverwritePrompt) (asks : (Task.perform slot job).mayPark = some slot)
      (isFile : job.item.isDir = false) (pane : prompt.dropUploadPane = none) :
      Reports slot job (.conflict prompt job.item slot)

variable {answers : ItemAnswers} {message : TransferMessage}

theorem reports_of_report {slot : Nat} {job : Job Client}
    (reported : job.report slot (job.work answers) = some message) :
    Reports slot job message := by
  rcases report_cases reported with rfl | ⟨error, rfl⟩ | ⟨prompt, isConflict, asks⟩
  · exact .done
  · exact .failed error
  · have conflict : job.work answers = .conflict prompt job.item := by
      unfold Job.report at reported
      rw [isConflict] at reported
      split at reported
      · split at reported <;> cases reported
      · cases reported
      · rename_i conflict
        cases reported
        exact conflict
      · rename_i conflict
        cases reported
        exact conflict
      · cases reported
      · cases reported
      · cases reported
    obtain ⟨-, -, isFile, pane⟩ := work_conflict conflict
    rw [isConflict]
    exact .conflict prompt asks isFile pane

/-- What an action of a transfer's own can do. -/
inductive OwnMove (watched : Watched Client) (action : WatchedAction Client)
    (next : Watched Client) : Prop
  | receive (index : Nat) (started : Started Client) (message : TransferMessage)
      (isAction : action = .act (.deliver index))
      (found : watched.owner.tasks[index]? = some started)
      (isMessage : started.task = .done message)
      (mail : watched.owner.mail.Perm (.done message :: (watched.owner.without index).mail))
      (isOwner : next.owner = (watched.owner.without index).receive message)
      (completed : next.completed = watched.completed)
  | finish (index slot : Nat) (job : Job Client) (message : TransferMessage)
      (mail : watched.owner.mail.Perm (.perform slot job :: (watched.owner.without index).mail))
      (after : next.owner.mail.Perm (.done message :: (watched.owner.without index).mail))
      (reports : Reports slot job message)
      (state : next.owner.state = watched.owner.state)
      (prompt : next.owner.overwritePrompt = watched.owner.overwritePrompt)
      (launched : next.owner.launched = watched.owner.launched)
      (completed : next.completed.map Prod.snd = watched.completed.map Prod.snd ++
        if message = .itemDone slot then [job.item] else [])
  | toggle (mail : next.owner.mail = watched.owner.mail)
      (state : next.owner.state = watched.owner.state)
      (prompt : next.owner.overwritePrompt = watched.owner.overwritePrompt.map fun prompt =>
        { prompt with applyToAll := !prompt.applyToAll })
      (launched : next.owner.launched = watched.owner.launched)
      (completed : next.completed = watched.completed)
  | resolve (action : OverwriteAction) (paneClient : Option Client)
      (isOwner : next.owner = watched.owner.resolveOverwrite action paneClient)
      (completed : next.completed = watched.completed)

theorem overwritePrompt_record (owner : Owner Client) (number : Nat) (job : Job Client)
    (outcome : Outcome) :
    (owner.record number job outcome).overwritePrompt = owner.overwritePrompt := by
  unfold Owner.record
  split <;> rfl

variable {watched next : Watched Client}

theorem ownMove_of_finish (stepped : watching.step watched (.finish index answers) = some next) :
    OwnMove watched (.finish index answers) next := by
  unfold watching at stepped
  dsimp only at stepped
  split at stepped
  · rename_i transfer slot job found
    obtain ⟨owner, finished, rfl⟩ := Option.map_eq_some_iff.mp stepped
    change Owner.finish watched.owner index (job.work answers) = some owner at finished
    rw [Owner.finish, found] at finished
    obtain ⟨message, reported, rfl⟩ := Option.map_eq_some_iff.mp finished
    obtain ⟨sameState, sameTasks, _, sameLaunched, _⟩ := record_rest
      { watched.owner with tasks := watched.owner.tasks.set index ⟨transfer, .done message⟩ }
      transfer job (job.work answers)
    refine .finish index slot job message (mail_without found) ?_ (reports_of_report reported)
      sameState (overwritePrompt_record _ _ _ _) sameLaunched ?_
    · show (List.map Started.task _).Perm _
      rw [sameTasks]
      exact mail_set found
    · show List.map Prod.snd (watched.completed ++ completedBy transfer slot job answers) = _
      rw [map_append, completedBy, reported]
      refine congrArg (_ ++ ·) ?_
      cases reports_of_report reported with
      | done => rw [if_pos rfl]; rfl
      | failed error => rw [if_neg (by intro same; cases same)]; rfl
      | conflict prompt _ _ _ => rw [if_neg (by intro same; cases same)]; rfl
  · cases stepped

variable {action : WatchedAction Client}

theorem ownMove_of_step (own : action.IsOwn) (stepped : watching.step watched action = some next) :
    OwnMove watched action next := by
  match action with
  | .finish index answers => exact ownMove_of_finish stepped
  | .act (.deliver index) =>
    obtain ⟨owner, delivered, rfl⟩ := Option.map_eq_some_iff.mp stepped
    change watched.owner.deliver index = some owner at delivered
    unfold Owner.deliver at delivered
    split at delivered
    case h_2 => cases delivered
    case h_1 number message found =>
      cases delivered
      exact .receive index _ message rfl found rfl (mail_without found) rfl rfl
  | .act .toggleApplyToAll =>
    cases stepped
    exact .toggle rfl rfl rfl rfl rfl
  | .act (.resolveOverwrite action paneClient) =>
    cases stepped
    exact .resolve action paneClient rfl rfl
  | .act (.queueReady _) | .act (.finish _ _) | .act .cancelTransfer | .act (.otherPrompt _) =>
    exact own.elim

/-! ### A transfer does not stall -/

/-- A task that lifts the barrier of a slot, or comes to report what does. -/
def Task.Lifts (slot : Nat) : Task Client → Prop
  | .perform own job => own = slot ∧ job.item.isDir
  | .done (.itemDone own) | .done (.error _ own) => own = slot
  | .done .next | .done (.conflict _ _ _) => False

/-- A busy slot has a task, a directory's one that lifts its barrier; what is paused has its item
parked and its question asked; and something is under way. -/
structure Lively (transfer : TransferState Client) (prompt : Option OverwritePrompt)
    (tasks : List (Task Client)) : Prop where
  slots : transfer.busySlots ≠ []
  busy : ∀ slot, transfer.busySlots[slot]? = some true → ∃ task ∈ tasks, task.slot = some slot
  barred : ∀ slot, transfer.dirSlot = some slot → ∃ task ∈ tasks, task.Lifts slot
  paused : transfer.paused = true →
    prompt.isSome ∧ transfer.pendingConflictItem.isSome
  asked : ∀ one ∈ prompt, one.dropUploadPane = none ∧ transfer.pendingConflictItem.isSome
  files : ∀ one item slot, Task.done (.conflict one item slot) ∈ tasks → one.dropUploadPane = none
  underWay : tasks ≠ [] ∨ transfer.paused = true

section Stalling

variable {transfer : TransferState Client} {prompt : Option OverwritePrompt}
  {tasks others : List (Task Client)}

theorem Lively.perm (lively : Lively transfer prompt tasks) (same : tasks.Perm others) :
    Lively transfer prompt others where
  slots := lively.slots
  busy := fun slot isBusy => by
    obtain ⟨task, member, reports⟩ := lively.busy slot isBusy
    exact ⟨task, same.mem_iff.mp member, reports⟩
  barred := fun slot isBarred => by
    obtain ⟨task, member, lifts⟩ := lively.barred slot isBarred
    exact ⟨task, same.mem_iff.mp member, lifts⟩
  paused := lively.paused
  asked := lively.asked
  files := fun one item slot member => lively.files one item slot (same.mem_iff.mpr member)
  underWay := lively.underWay.imp_left fun some none => some (by
    rw [none] at same
    exact same.eq_nil)

theorem lively_launch (launch : Launch Client) (slots : launch.state.busySlots ≠ [])
    (count : Nat) : Lively launch.state none (Owner.nexts (count + 1)) := by
  have idle : ∀ slot : Nat, launch.state.busySlots[slot]? ≠ some true := by
    intro slot isBusy
    have member := mem_of_getElem? isBusy
    cases launch with
    | batch kind queue clients slots => exact absurd (eq_of_mem_replicate member) (by decide)
    | relay queue source dest moveSource =>
      cases moveSource <;> exact absurd (eq_of_mem_replicate member) (by decide)
  have plain : launch.state.dirSlot = none ∧ launch.state.paused = false := by
    cases launch with
    | batch kind queue clients slots => exact ⟨rfl, rfl⟩
    | relay queue source dest moveSource => cases moveSource <;> exact ⟨rfl, rfl⟩
  refine ⟨slots, fun slot isBusy => absurd isBusy (idle slot), fun slot isBarred => ?_,
    fun isPaused => ?_, fun one none => absurd none (Option.not_mem_none _),
    fun one item slot member => ?_, .inl (cons_ne_nil _ _)⟩
  · rw [plain.1] at isBarred
    cases isBarred
  · rw [plain.2] at isPaused
    cases isPaused
  · exact absurd (eq_of_mem_replicate member) (by intro same; cases same)

/-- A dropped request has a reason. -/
theorem wait_cases (wait : transfer.next = .wait) (slots : transfer.busySlots ≠ []) :
    transfer.paused = true ∨ (∃ slot, transfer.dirSlot = some slot) ∨
      ∃ slot : Nat, transfer.busySlots[slot]? = some true := by
  have someBusy (member : true ∈ transfer.busySlots) :
      ∃ slot : Nat, transfer.busySlots[slot]? = some true := mem_iff_getElem?.mp member
  unfold TransferState.next at wait
  by_cases paused : transfer.paused
  · exact .inl paused
  by_cases barred : transfer.dirSlot.isSome
  · exact .inr (.inl (Option.isSome_iff_exists.mp barred))
  refine .inr (.inr (someBusy ?_))
  rw [if_neg paused, if_neg barred] at wait
  split at wait
  · rename_i drains
    obtain ⟨slot, member, isBusy⟩ := any_eq_true.mp (Bool.and_eq_true_iff.mp drains).2
    have isTrue : slot = true := isBusy
    rwa [isTrue] at member
  · cases idle : transfer.busySlots.findIdx? (!·) with
    | none =>
      obtain ⟨first, others, isSlots⟩ := exists_cons_of_ne_nil slots
      have allBusy := findIdx?_eq_none_iff.mp idle first (by rw [isSlots]; exact .head _)
      have isBusy : first = true := by simpa using allBusy
      rw [isSlots, isBusy]
      exact .head _
    | some slot =>
      simp only [idle] at wait
      split at wait
      · split at wait
        · cases wait
        · rename_i notIdle
          by_contra noneBusy
          refine notIdle (all_eq_true.mpr fun flag member => ?_)
          cases flag with
          | false => rfl
          | true => exact absurd member noneBusy
      · cases wait

/-- What is dropped is no task of a slot. -/
theorem Lively.drop (lively : Lively transfer prompt (.done .next :: tasks))
    (underWay : tasks ≠ [] ∨ transfer.paused = true) : Lively transfer prompt tasks where
  slots := lively.slots
  busy := fun slot isBusy => by
    obtain ⟨task, member, reports⟩ := lively.busy slot isBusy
    cases member with
    | head => cases reports
    | tail _ member => exact ⟨task, member, reports⟩
  barred := fun slot isBarred => by
    obtain ⟨task, member, lifts⟩ := lively.barred slot isBarred
    cases member with
    | head => exact lifts.elim
    | tail _ member => exact ⟨task, member, lifts⟩
  paused := lively.paused
  asked := lively.asked
  files := fun one item slot member => lively.files one item slot (.tail _ member)
  underWay := underWay

theorem Lively.of_wait (lively : Lively transfer prompt (.done .next :: tasks))
    (wait : transfer.next = .wait) : Lively transfer prompt tasks := by
  refine lively.drop ?_
  rcases wait_cases wait lively.slots with paused | ⟨slot, isBarred⟩ | ⟨slot, isBusy⟩
  · exact .inr paused
  · obtain ⟨task, member, lifts⟩ := lively.barred slot isBarred
    cases member with
    | head => exact lifts.elim
    | tail _ member => exact .inl (ne_nil_of_mem member)
  · obtain ⟨task, member, reports⟩ := lively.busy slot isBusy
    cases member with
    | head => cases reports
    | tail _ member => exact .inl (ne_nil_of_mem member)

variable {item : TransferItem}

theorem lifts_itemTask (transfer : TransferState Client) (slot : Nat) (isDir : item.isDir) :
    (transfer.itemTask slot item).Lifts slot := by
  rcases itemTask_cases transfer slot item with ⟨job, isItem, _, isTask⟩ | ⟨error, isTask⟩
  · rw [isTask]
    exact ⟨rfl, by rw [isItem]; exact isDir⟩
  · rw [isTask]
    rfl

variable {flags : List Bool}

theorem set_ne_nil (slots : flags ≠ []) (slot : Nat) (value : Bool) :
    flags.set slot value ≠ [] := by
  rw [← length_pos_iff, length_set]
  exact length_pos_iff.mpr slots

/-- The next item is started, in an idle slot. -/
theorem Lively.start (lively : Lively transfer prompt (.done .next :: tasks))
    (slot : Nat) (item : TransferItem) (queue : List TransferItem) :
    Lively (transfer.startItem slot item queue) prompt
      (tasks ++ [(transfer.startItem slot item queue).itemTask slot item]) where
  slots := set_ne_nil lively.slots slot true
  busy := fun one isBusy => by
    by_cases same : slot = one
    · subst same
      exact ⟨_, mem_append_right _ (.head _), slot_itemTask _ slot item⟩
    · change (transfer.busySlots.set slot true)[one]? = some true at isBusy
      rw [getElem?_set_ne same] at isBusy
      obtain ⟨task, member, reports⟩ := lively.busy one isBusy
      cases member with
      | head => cases reports
      | tail _ member => exact ⟨task, mem_append_left _ member, reports⟩
  barred := fun one isBarred => by
    change (if item.isDir then some slot else transfer.dirSlot) = some one at isBarred
    split_ifs at isBarred with isDir
    · cases isBarred
      exact ⟨_, mem_append_right _ (.head _), lifts_itemTask _ slot isDir⟩
    · obtain ⟨task, member, lifts⟩ := lively.barred one isBarred
      cases member with
      | head => exact lifts.elim
      | tail _ member => exact ⟨task, mem_append_left _ member, lifts⟩
  paused := lively.paused
  asked := lively.asked
  files := fun one file own member => by
    rcases mem_append.mp member with old | new
    · exact lively.files one file own (.tail _ old)
    · rcases itemTask_cases (transfer.startItem slot item queue) slot item with
        ⟨job, _, _, isTask⟩ | ⟨error, isTask⟩
      · rw [isTask] at new
        cases mem_singleton.mp new
      · rw [isTask] at new
        cases mem_singleton.mp new
  underWay := .inl (append_ne_nil_of_right_ne_nil _ (cons_ne_nil _ _))

variable {slot : Nat}

theorem busy_of_set_false {one : Nat} (isBusy : (flags.set slot false)[one]? = some true) :
    slot ≠ one ∧ flags[one]? = some true := by
  have other : slot ≠ one := by
    rintro rfl
    rw [getElem?_set_self'] at isBusy
    cases flag : flags[slot]? with
    | none => rw [flag] at isBusy; cases isBusy
    | some value => rw [flag] at isBusy; cases isBusy
  exact ⟨other, by rwa [getElem?_set_ne other] at isBusy⟩

/-- An item is done, and the runner is asked for the next. -/
theorem Lively.itemDone (lively : Lively transfer prompt (.done (.itemDone slot) :: tasks))
    (count : Nat) :
    Lively (transfer.itemDone slot) prompt (tasks ++ Owner.nexts (count + 1)) where
  slots := set_ne_nil lively.slots slot false
  busy := fun one isBusy => by
    obtain ⟨other, wasBusy⟩ := busy_of_set_false isBusy
    obtain ⟨task, member, reports⟩ := lively.busy one wasBusy
    cases member with
    | head => exact absurd (Option.some.inj reports) other
    | tail _ member => exact ⟨task, mem_append_left _ member, reports⟩
  barred := fun one isBarred => by
    change (if transfer.dirSlot = some slot then none else transfer.dirSlot) = some one at isBarred
    split_ifs at isBarred with lifted
    obtain ⟨task, member, lifts⟩ := lively.barred one isBarred
    cases member with
    | head => exact absurd (isBarred.trans (congrArg some lifts.symm)) lifted
    | tail _ member => exact ⟨task, mem_append_left _ member, lifts⟩
  paused := lively.paused
  asked := lively.asked
  files := fun one item own member => by
    rcases mem_append.mp member with old | new
    · exact lively.files one item own (.tail _ old)
    · cases eq_of_mem_replicate new
  underWay := .inl (append_ne_nil_of_right_ne_nil _ (cons_ne_nil _ _))

variable {one : OverwritePrompt}

/-- A conflict parks its item and asks. -/
theorem Lively.park (lively : Lively transfer prompt (.done (.conflict one item slot) :: tasks)) :
    Lively (transfer.park item slot) (some one) tasks where
  slots := set_ne_nil lively.slots slot false
  busy := fun other isBusy => by
    obtain ⟨apart, wasBusy⟩ := busy_of_set_false isBusy
    obtain ⟨task, member, reports⟩ := lively.busy other wasBusy
    cases member with
    | head => exact absurd (Option.some.inj reports) apart
    | tail _ member => exact ⟨task, member, reports⟩
  barred := fun other isBarred => by
    obtain ⟨task, member, lifts⟩ := lively.barred other isBarred
    cases member with
    | head => exact lifts.elim
    | tail _ member => exact ⟨task, member, lifts⟩
  paused := fun _ => ⟨rfl, rfl⟩
  asked := fun asked isAsked => by
    cases isAsked
    exact ⟨lively.files one item slot (.head _), rfl⟩
  files := fun asked file own member => lively.files asked file own (.tail _ member)
  underWay := .inr rfl

/-- A worker ends with its report. -/
theorem Lively.finish {job : Job Client} {message : TransferMessage}
    (lively : Lively transfer prompt (.perform slot job :: tasks))
    (reports : Reports slot job message) : Lively transfer prompt (.done message :: tasks) where
  slots := lively.slots
  busy := fun one isBusy => by
    obtain ⟨task, member, here⟩ := lively.busy one isBusy
    cases member with
    | tail _ member => exact ⟨task, .tail _ member, here⟩
    | head =>
      refine ⟨.done message, .head _, ?_⟩
      cases here
      cases reports <;> rfl
  barred := fun one isBarred => by
    obtain ⟨task, member, lifts⟩ := lively.barred one isBarred
    cases member with
    | tail _ member => exact ⟨task, .tail _ member, lifts⟩
    | head =>
      refine ⟨.done message, .head _, ?_⟩
      obtain ⟨here, isDir⟩ := lifts
      cases reports with
      | done => exact here
      | failed error => exact here
      | conflict prompt asks isFile pane =>
        rw [isFile] at isDir
        cases isDir
  paused := lively.paused
  asked := lively.asked
  files := fun one item own member => by
    cases member with
    | tail _ member => exact lively.files one item own (.tail _ member)
    | head =>
      cases reports with
      | conflict prompt asks isFile pane => exact pane
  underWay := .inl (cons_ne_nil _ _)

/-- An answer starts the parked item again, skips it or fails. -/
theorem Lively.answer (lively : Lively transfer (some one) tasks) {after : TransferState Client}
    (slots : after.busySlots ≠ [])
    (busy : ∀ slot, after.busySlots[slot]? = some true → transfer.busySlots[slot]? = some true ∨
      ∃ task ∈ others, task.slot = some slot) (barred : after.dirSlot = transfer.dirSlot)
    (running : after.paused = false)
    (files : ∀ asked item slot, Task.done (.conflict asked item slot) ∉ others) (some : others ≠ []) : Lively after none (tasks ++ others) where
  slots := slots
  busy := fun slot isBusy => by
    rcases busy slot isBusy with before | ⟨task, member, reports⟩
    · obtain ⟨task, member, reports⟩ := lively.busy slot before
      exact ⟨task, mem_append_left _ member, reports⟩
    · exact ⟨task, mem_append_right _ member, reports⟩
  barred := fun slot isBarred => by
    obtain ⟨task, member, lifts⟩ := lively.barred slot (barred ▸ isBarred)
    exact ⟨task, mem_append_left _ member, lifts⟩
  paused := fun isPaused => absurd (running.symm.trans isPaused) (by decide)
  asked := fun asked none => absurd none (Option.not_mem_none _)
  files := fun asked item slot member => by
    rcases mem_append.mp member with old | new
    · exact lively.files asked item slot old
    · exact absurd new (files asked item slot)
  underWay := .inl (append_ne_nil_of_right_ne_nil _ some)

end Stalling

/-- The transfer that is under way, if one is, is lively. -/
def Owner.Lively (owner : Owner Client) : Prop :=
  ∀ transfer ∈ owner.state, Transfer.Lively transfer owner.overwritePrompt owner.mail

theorem receive_of_none (ended : owner.state = none) (message : TransferMessage) :
    (owner.receive message).state = none := by
  cases message with
  | next => rw [Owner.receive, Owner.next, ended, ended]
  | itemDone slot =>
    rw [Owner.receive, Owner.itemDone, ended]
    exact ended
  | conflict prompt item slot =>
    show owner.state.map _ = none
    rw [ended]
    rfl
  | error error slot => rfl

theorem Owner.Lively.receive {rest : Owner Client} (lively : owner.Lively)
    (state : rest.state = owner.state) (prompt : rest.overwritePrompt = owner.overwritePrompt)
    (mail : owner.mail.Perm (.done message :: rest.mail)) : (rest.receive message).Lively := by
  intro current isCurrent
  cases isState : rest.state with
  | none =>
    rw [receive_of_none isState] at isCurrent
    cases isCurrent
  | some transfer =>
    have before := (lively transfer (state ▸ isState)).perm mail
    rw [← prompt] at before
    cases message with
    | next =>
      rw [Owner.receive, Owner.next, isState] at isCurrent ⊢
      dsimp only at isCurrent ⊢
      rcases next_cases transfer with wait | ⟨-, -, ends⟩ | ⟨slot, item, queue, -, -, starts⟩
      · rw [wait] at isCurrent ⊢
        cases isState.symm.trans isCurrent
        exact before.of_wait wait
      · simp only [ends] at isCurrent
        rw [(finalize_rest rest _ _).1] at isCurrent
        cases isCurrent
      · rw [starts] at isCurrent ⊢
        cases isCurrent
        have started := before.start slot item queue
        rw [← mail_start] at started
        exact started
    | itemDone slot =>
      rw [Owner.receive, Owner.itemDone, isState] at isCurrent ⊢
      cases isCurrent
      obtain ⟨count, isCount⟩ : ∃ count, transfer.refill slot = count + 1 := by
        refine Nat.exists_eq_add_one.mpr ?_
        rw [TransferState.refill]
        split_ifs
        · exact Nat.lt_of_lt_of_le Nat.one_pos (Nat.le_max_right _ _)
        · exact Nat.one_pos
      have done := before.itemDone count
      rw [← isCount, ← mail_start] at done
      exact done
    | conflict one item slot =>
      obtain ⟨parked, isParked, rfl⟩ := Option.map_eq_some_iff.mp isCurrent
      cases isState.symm.trans isParked
      exact before.park
    | error error slot => cases isCurrent

theorem resolveOverwrite_of_parked {prompt : OverwritePrompt} {transfer : TransferState Client}
    {item : TransferItem} (isPrompt : owner.overwritePrompt = some prompt)
    (pane : prompt.dropUploadPane = none) (isState : owner.state = some transfer)
    (isParked : transfer.pendingConflictItem = some item) (action : OverwriteAction)
    (paneClient : Option Client) :
    owner.resolveOverwrite action paneClient =
      if action = .cancel then
        Owner.skipParked { owner with overwritePrompt := none }
          (transfer.unpark action prompt.applyToAll) (transfer.pendingConflictSlot.getD 0)
          prompt.applyToAll
      else
        Owner.applyParked { owner with overwritePrompt := none }
          (transfer.unpark action prompt.applyToAll) (transfer.pendingConflictSlot.getD 0) item
          prompt action paneClient := by
  rw [Owner.resolveOverwrite, isPrompt]
  dsimp only
  rw [pane, if_neg (by decide)]
  simp only [isState, isParked]

theorem Owner.Lively.resolve (lively : owner.Lively) (action : OverwriteAction)
    (paneClient : Option Client) :
    (owner.resolveOverwrite action paneClient).Lively := by
  cases isPrompt : owner.overwritePrompt with
  | none =>
    rw [Owner.resolveOverwrite, isPrompt]
    exact lively
  | some prompt =>
    cases isState : owner.state with
    | none =>
      rw [Owner.resolveOverwrite, isPrompt]
      dsimp only
      rw [isState]
      split_ifs <;> exact fun current none => absurd none (Option.not_mem_none _)
    | some transfer =>
      have before := lively transfer isState
      rw [isPrompt] at before
      obtain ⟨pane, parked⟩ := before.asked prompt rfl
      obtain ⟨item, isParked⟩ := Option.isSome_iff_exists.mp parked
      rw [resolveOverwrite_of_parked isPrompt pane isState isParked]
      split_ifs with skips
      · intro current isCurrent
        show Transfer.Lively current none (Owner.mail (Owner.start _ _))
        rw [mail_start]
        have same : current.busySlots = transfer.busySlots ∧ current.dirSlot = transfer.dirSlot ∧
            current.paused = false := by
          cases isCurrent
          cases prompt.applyToAll <;> exact ⟨rfl, rfl, rfl⟩
        refine before.answer (same.1 ▸ before.slots) (fun slot isBusy => .inl (same.1 ▸ isBusy))
          same.2.1 same.2.2 (fun asked item slot member => ?_) (cons_ne_nil _ _)
        cases member with
        | tail _ member => cases eq_of_mem_replicate member
      · unfold Owner.applyParked
        cases (transfer.unpark action prompt.applyToAll).clients[
            transfer.pendingConflictSlot.getD 0]? <|> paneClient with
        | none =>
          intro current isCurrent
          cases isCurrent
          show Transfer.Lively _ none (Owner.mail (Owner.start _ _))
          rw [mail_start]
          refine before.answer before.slots (fun slot isBusy => .inl isBusy) rfl rfl
            (fun asked item slot member => ?_) (cons_ne_nil _ _)
          cases mem_singleton.mp member
        | some client =>
          intro current isCurrent
          cases isCurrent
          show Transfer.Lively _ none (Owner.mail (Owner.start _ _))
          rw [mail_start]
          refine before.answer (set_ne_nil before.slots _ true) (fun slot isBusy => ?_) rfl rfl
            (fun asked item slot member => ?_) (cons_ne_nil _ _)
          · change (transfer.busySlots.set (transfer.pendingConflictSlot.getD 0) true)[slot]? =
              some true at isBusy
            by_cases here : transfer.pendingConflictSlot.getD 0 = slot
            · exact .inr ⟨_, .head _, congrArg some here⟩
            · rw [getElem?_set_ne here] at isBusy
              exact .inl isBusy
          · cases member with
            | tail _ member => cases eq_of_mem_replicate member

theorem Owner.Lively.step (lively : watched.owner.Lively) (move : OwnMove watched action next) :
    next.owner.Lively := by
  cases move with
  | receive index started message isAction found isMessage mail isOwner completed =>
    rw [isOwner]
    exact lively.receive rfl rfl mail
  | finish index slot job message mail after reports state prompt launched completed =>
    intro transfer isState
    rw [state] at isState
    rw [prompt]
    exact (((lively transfer isState).perm mail).finish reports).perm after.symm
  | toggle mail state prompt launched completed =>
    intro transfer isState
    rw [state] at isState
    have before := lively transfer isState
    rw [mail, prompt]
    refine ⟨before.slots, before.busy, before.barred, fun isPaused => ?_, fun one isOne => ?_,
      before.files, before.underWay⟩
    · rw [Option.isSome_map]
      exact before.paused isPaused
    · obtain ⟨old, isOld, rfl⟩ := Option.map_eq_some_iff.mp isOne
      exact before.asked old isOld
  | resolve action paneClient isOwner completed =>
    rw [isOwner]
    exact lively.resolve action paneClient

/-- A worker is at an item, or on the way to report that its name is taken. -/
def Task.isInFlight : Task Client → Bool
  | .perform _ _ | .done (.conflict _ _ _) => true
  | .done .next | .done (.itemDone _) | .done (.error _ _) => false

def Task.isMessage : Task Client → Bool
  | .done .next | .done (.itemDone _) | .done (.error _ _) => true
  | .perform _ _ | .done (.conflict _ _ _) => false

/-- A worker, a request for the next item, a report or a question is under way. -/
def GoesOn (owner : Owner Client) : Prop :=
  ∀ transfer ∈ owner.state,
    (∃ task ∈ owner.mail, task.isInFlight) ∨ (∃ task ∈ owner.mail, task.isMessage) ∨
      owner.overwritePrompt.isSome ∧ transfer.pendingConflictItem.isSome

theorem Owner.Lively.goesOn (lively : owner.Lively) : GoesOn owner := by
  intro transfer isState
  rcases (lively transfer isState).underWay with some | paused
  · obtain ⟨task, others, isMail⟩ := exists_cons_of_ne_nil some
    have member : task ∈ owner.mail := by
      rw [isMail]
      exact .head _
    match task with
    | .perform _ _ | .done (.conflict _ _ _) => exact .inl ⟨_, member, rfl⟩
    | .done .next | .done (.itemDone _) | .done (.error _ _) => exact .inr (.inl ⟨_, member, rfl⟩)
  · exact .inr (.inr ((lively transfer isState).paused paused))

end Oryxis.Transfer

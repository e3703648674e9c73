/-
This file proves when a move between hosts deletes only what it has copied.

A move takes an empty queue and an idle slot for the proof that everything is copied.
While its only slot is busy there is one task out for it, a copy, the message that it
is done or one that it failed, and only the second frees the slot. But the slot is
freed by whatever message names it, and the worker of a transfer that was cancelled or
replaced still sends one. Where none of those frees the move's slot or parks an item
in it, a move hands over its sources only when each of them was copied and its size
was verified.
-/

import Oryxis.Library.Picks
import Oryxis.Sftp.Queue

namespace Oryxis.Transfer

open Library List

variable {Client : Type*}

/-! ### What is to hold of a run -/

/-- The hosts' answers amount to a copy: the directory is there, or the file was relayed and is
there in the size it has at the source. -/
def RelayAnswers.Copied (answers : RelayAnswers) (item : TransferItem) : Prop :=
  if item.isDir then answers.createDir = .ok () ∨ ∃ entries, answers.listDir = .ok entries
  else answers.relay = .ok () ∧ ∃ size, answers.dstSize = .ok size ∧
    (item.size = some size ∨ item.size = none ∧ answers.srcSize = .ok size)

def Copied (relayed : List Relayed) (transfer : Nat) (item : TransferItem) : Prop :=
  ∃ one ∈ relayed, one.transfer = transfer ∧ one.item = item ∧ one.answers.Copied item

/-- What is handed over is the list of that move, and all of that move is copied. -/
structure Handed.Sound (handed : Handed) : Prop where
  ofMove : handed.sources = handed.launched
  copied : ∀ item ∈ handed.launched, Copied handed.relayed handed.transfer item

/-- Moves hand over only sources they have copied, and the removal takes nothing but these, a
directory after everything listed below it. -/
def HandsOverOnlyCopied (owner : Owner Client) : Prop :=
  ∀ handed ∈ owner.handed, handed.Sound ∧
    ∀ answer, Orderly handed.sources (removeMovedSources answer handed.sources).1

/-- A message of an earlier transfer that does a move no harm: it parks nothing in it, and frees
no slot the move has an item in. -/
def Task.Harmless (transfer : TransferState Client) : Task Client → Prop
  | .done (.itemDone slot) => transfer.busySlots[slot]? ≠ some true
  | .done (.conflict _ _ _) => False
  | _ => True

/-- No message of an earlier transfer that frees the slot of a move's item, or parks another item
in the move, arrives while the move is the owner's transfer. -/
def Undisturbed (owner : Owner Client) : Action Client → Prop
  | .deliver index => ∀ started ∈ owner.tasks[index]?, started.transfer ≠ owner.transfer →
      ∀ transfer ∈ owner.state, transfer.moveSources.isSome → started.task.Harmless transfer
  | _ => True

instance (transfer : TransferState Client) : ∀ task, Decidable (Task.Harmless transfer task)
  | .done (.itemDone slot) => inferInstanceAs (Decidable (transfer.busySlots[slot]? ≠ some true))
  | .done (.conflict _ _ _) => isFalse id
  | .done .next | .done (.error _ _) | .perform _ _ => isTrue trivial

instance (owner : Owner Client) : ∀ action, Decidable (Undisturbed owner action)
  | .deliver index => inferInstanceAs (Decidable (∀ started ∈ owner.tasks[index]?,
      started.transfer ≠ owner.transfer → ∀ transfer ∈ owner.state, transfer.moveSources.isSome →
        started.task.Harmless transfer))
  | .queueReady _ | .finish _ _ | .cancelTransfer | .toggleApplyToAll | .resolveOverwrite _ _
  | .otherPrompt _ => isTrue trivial

/-! ### One item -/

variable {item : TransferItem}

variable {answers : RelayAnswers}

theorem size_of_verifyRelayedSize (verified : verifyRelayedSize answers item = .ok ()) :
    ∃ size, answers.dstSize = .ok size ∧
      (item.size = some size ∨ item.size = none ∧ answers.srcSize = .ok size) := by
  unfold verifyRelayedSize at verified
  cases hint : item.size with
  | some expected =>
    cases landed : answers.dstSize with
    | error error =>
      rw [hint, landed] at verified
      cases verified
    | ok size =>
      rw [hint, landed] at verified
      by_cases other : size ≠ expected
      · change (if size ≠ expected then _ else _) = _ at verified
        rw [if_pos other] at verified
        cases verified
      · exact ⟨size, rfl, .inl (by rw [not_not.mp other])⟩
  | none =>
    cases source : answers.srcSize with
    | error error =>
      rw [hint, source] at verified
      cases verified
    | ok expected =>
      cases landed : answers.dstSize with
      | error error =>
        rw [hint, source, landed] at verified
        cases verified
      | ok size =>
        rw [hint, source, landed] at verified
        by_cases other : size ≠ expected
        · change (if size ≠ expected then _ else _) = _ at verified
          rw [if_pos other] at verified
          cases verified
        · exact ⟨size, rfl, .inr ⟨rfl, by rw [not_not.mp other]⟩⟩

theorem copied_of_doRelayItem (done : doRelayItem answers item true = .ok ()) :
    answers.Copied item := by
  unfold doRelayItem at done
  unfold RelayAnswers.Copied
  split at done
  · rename_i isDir
    rw [if_pos isDir]
    cases created : answers.createDir with
    | ok value => exact .inl rfl
    | error error =>
      cases listed : answers.listDir with
      | ok entries => exact .inr ⟨entries, rfl⟩
      | error other =>
        rw [created, listed] at done
        cases done
  · rename_i isFile
    rw [if_neg isFile]
    cases relayed : answers.relay with
    | error error =>
      rw [relayed] at done
      cases done
    | ok value =>
      rw [relayed] at done
      exact ⟨rfl, size_of_verifyRelayedSize done⟩

theorem Copied.mono {relayed later : List Relayed} {transfer : Nat}
    (copied : Copied relayed transfer item) (kept : ∀ one ∈ relayed, one ∈ later) :
    Copied later transfer item := by
  obtain ⟨one, member, itsCopy⟩ := copied
  exact ⟨one, kept one member, itsCopy⟩

/-! ### The tasks of a transfer -/

/-- A task that has something to report on a transfer. -/
def Started.reportsOn (transfer : Nat) (started : Started Client) : Bool :=
  match started.task with
  | .done .next => false
  | _ => decide (started.transfer = transfer)

/-- The tasks that are to report on the owner's transfer. -/
def Owner.reports (owner : Owner Client) : List (Started Client) :=
  owner.tasks.filter (Started.reportsOn owner.transfer)

theorem filter_nexts (transfer : Nat) (owner count : Nat) :
    ((Owner.nexts count : List (Task Client)).map (Started.mk owner)).filter
      (Started.reportsOn transfer) = [] := by
  refine filter_eq_nil_iff.mpr fun started member => ?_
  obtain ⟨task, isNext, rfl⟩ := mem_map.mp member
  rw [eq_of_mem_replicate isNext]
  exact Bool.false_ne_true

theorem reports_start_nexts (owner : Owner Client) (count : Nat) :
    (owner.start (Owner.nexts count)).reports = owner.reports := by
  show (owner.tasks ++ _).filter (Started.reportsOn owner.transfer) = owner.reports
  rw [filter_append, filter_nexts, append_nil, Owner.reports]

/-! ### How far a move is -/

/-- Every item of the move but these is copied. -/
def Owner.CopiedBut (owner : Owner Client) (items : List TransferItem) : Prop :=
  ∀ item ∈ owner.launched, item ∈ items ∨ Copied owner.relayed owner.transfer item

/-- The slot of a move: idle, or with one item in it that is being copied, is copied or could not
be. One task is to report on it, and none while it is idle. -/
inductive Stage (owner : Owner Client) (transfer : TransferState Client) : Prop
  | idle (free : transfer.busySlots = [false]) (silent : owner.reports = [])
      (copied : owner.CopiedBut transfer.queue)
  | copying (busy : transfer.busySlots = [true]) (source dest : Client) (item : TransferItem)
      (only : owner.reports = [⟨owner.transfer, .perform 0 (.relay source dest item true)⟩])
      (copied : owner.CopiedBut (item :: transfer.queue))
  | copied (busy : transfer.busySlots = [true])
      (only : owner.reports = [⟨owner.transfer, .done (.itemDone 0)⟩])
      (copied : owner.CopiedBut transfer.queue)
  | failed (busy : transfer.busySlots = [true]) (error : TransferError) (slot : Nat)
      (only : owner.reports = [⟨owner.transfer, .done (.error error slot)⟩])

/-- A move that is under way. -/
structure OnCourse (owner : Owner Client) (transfer : TransferState Client) : Prop where
  relays : transfer.kind = .relay
  sources : transfer.moveSources = some owner.launched
  unparked : transfer.pendingConflictItem = none
  stage : Stage owner transfer

structure Guarded (owner : Owner Client) : Prop where
  numbered : ∀ started ∈ owner.tasks, started.transfer ≤ owner.transfer
  onCourse : ∀ transfer ∈ owner.state, transfer.moveSources.isSome → OnCourse owner transfer
  sound : ∀ handed ∈ owner.handed, handed.Sound

/-- Two owners at the same point of the same transfer. -/
structure SamePoint (owner next : Owner Client) : Prop where
  transfer : next.transfer = owner.transfer
  launched : next.launched = owner.launched
  relayed : ∀ one ∈ owner.relayed, one ∈ next.relayed

variable {owner next : Owner Client}

theorem SamePoint.copiedBut (same : SamePoint owner next) {items : List TransferItem}
    (copied : owner.CopiedBut items) : next.CopiedBut items := by
  intro item member
  rw [same.launched] at member
  rw [same.transfer]
  exact (copied item member).imp id fun itsCopy => itsCopy.mono same.relayed

variable {transfer other : TransferState Client}

theorem Stage.of_samePoint (stage : Stage owner transfer) (same : SamePoint owner next)
    (reports : next.reports = owner.reports) (busySlots : other.busySlots = transfer.busySlots)
    (queue : other.queue = transfer.queue) : Stage next other := by
  cases stage with
  | idle free silent copied =>
    refine .idle (busySlots ▸ free) (reports ▸ silent) ?_
    rw [queue]
    exact same.copiedBut copied
  | copying busy source dest item only copied =>
    refine .copying (busySlots ▸ busy) source dest item ?_ ?_
    · rw [reports, same.transfer, only]
    · rw [queue]
      exact same.copiedBut copied
  | copied busy only copied =>
    refine .copied (busySlots ▸ busy) ?_ ?_
    · rw [reports, same.transfer, only]
    · rw [queue]
      exact same.copiedBut copied
  | failed busy error slot only =>
    refine .failed (busySlots ▸ busy) error slot ?_
    rw [reports, same.transfer, only]

theorem OnCourse.of_samePoint (onCourse : OnCourse owner transfer) (same : SamePoint owner next)
    (reports : next.reports = owner.reports) (kind : other.kind = transfer.kind)
    (moveSources : other.moveSources = transfer.moveSources)
    (parked : other.pendingConflictItem = none) (busySlots : other.busySlots = transfer.busySlots)
    (queue : other.queue = transfer.queue) : OnCourse next other where
  relays := by rw [kind, onCourse.relays]
  sources := by rw [moveSources, onCourse.sources, same.launched]
  unparked := parked
  stage := onCourse.stage.of_samePoint same reports busySlots queue

/-- What leaves the transfer, its tasks and what was handed over alone keeps the guard. -/
theorem Guarded.of_samePoint (guarded : Guarded owner) (same : SamePoint owner next)
    (state : next.state = owner.state)
    (tasks : ∀ started ∈ next.tasks, started.transfer ≤ owner.transfer)
    (reports : next.reports = owner.reports) (handed : next.handed = owner.handed) :
    Guarded next where
  numbered := by
    rw [same.transfer]
    exact tasks
  onCourse := by
    rw [state]
    intro transfer current move
    have onCourse := guarded.onCourse transfer current move
    exact onCourse.of_samePoint same reports rfl rfl onCourse.unparked rfl rfl
  sound := by
    rw [handed]
    exact guarded.sound

/-- Without a move there is nothing to guard but what was handed over. -/
theorem Guarded.of_noMove (guarded : Guarded owner)
    (noMove : ∀ transfer ∈ next.state, ¬ transfer.moveSources.isSome)
    (transfer : next.transfer = owner.transfer)
    (tasks : ∀ started ∈ next.tasks, started.transfer ≤ owner.transfer)
    (sound : ∀ handed ∈ next.handed, handed ∉ owner.handed → handed.Sound) : Guarded next where
  numbered := by
    rw [transfer]
    exact tasks
  onCourse := fun transfer current move => absurd move (noMove transfer current)
  sound := fun handed member => by
    by_cases old : handed ∈ owner.handed
    · exact guarded.sound handed old
    · exact sound handed member old

theorem Guarded.of_ended (guarded : Guarded owner) (ended : next.state = none)
    (transfer : next.transfer = owner.transfer)
    (tasks : ∀ started ∈ next.tasks, started.transfer ≤ owner.transfer)
    (sound : ∀ handed ∈ next.handed, handed ∉ owner.handed → handed.Sound) : Guarded next :=
  guarded.of_noMove (by rw [ended]; exact fun _ none => nomatch none) transfer tasks sound

/-! ### What a step keeps -/

variable {tasks : List (Task Client)}

theorem transfer_le_of_start (numbered : ∀ started ∈ owner.tasks, started.transfer ≤ owner.transfer) :
    ∀ started ∈ (owner.start tasks).tasks, started.transfer ≤ owner.transfer := by
  intro started member
  rcases mem_append.mp member with old | new
  · exact numbered started old
  · obtain ⟨task, -, rfl⟩ := mem_map.mp new
    exact le_rfl

/-- To look for the next item again changes nothing. -/
theorem Guarded.start_nexts (guarded : Guarded owner) (count : Nat) :
    Guarded (owner.start (Owner.nexts count)) :=
  guarded.of_samePoint ⟨rfl, rfl, fun _ member => member⟩ rfl
    (transfer_le_of_start guarded.numbered) (reports_start_nexts owner count) rfl

theorem onCourse_of_launch (queue : List TransferItem) (source dest : Client)
    (silent : owner.reports = []) (launched : owner.launched = queue) :
    OnCourse owner (Launch.relay queue source dest true).state where
  relays := rfl
  sources := by
    rw [launched]
    rfl
  unparked := rfl
  stage := .idle rfl silent fun item member => .inl (launched ▸ member)

/-- Tasks of earlier transfers report nothing on this one. -/
theorem filter_of_earlier {tasks : List (Started Client)} {transfer : Nat}
    (earlier : ∀ started ∈ tasks, started.transfer < transfer) :
    tasks.filter (Started.reportsOn transfer) = [] := by
  refine filter_eq_nil_iff.mpr fun started member reports => ?_
  have before := earlier started member
  unfold Started.reportsOn at reports
  split at reports
  · cases reports
  · rw [decide_eq_true_eq] at reports
    exact absurd reports before.ne

theorem guarded_queueReady (guarded : Guarded owner) (launch : Launch Client) :
    Guarded (owner.queueReady launch) := by
  have numbered : ∀ started ∈ owner.tasks, started.transfer < owner.transfer + 1 :=
    fun started member => Nat.lt_succ_of_le (guarded.numbered started member)
  have silent := filter_of_earlier numbered
  have ready : Guarded { owner with
      state := some launch.state
      transfer := owner.transfer + 1
      launched := launch.queue } := by
    refine ⟨fun started member => (numbered started member).le, ?_, guarded.sound⟩
    rintro transfer current move
    cases current
    cases launch with
    | batch kind queue clients slots => cases move
    | relay queue source dest moveSource =>
      cases moveSource with
      | false => cases move
      | true => exact onCourse_of_launch queue source dest silent rfl
  exact ready.start_nexts _

theorem next_cases (transfer : TransferState Client) :
    transfer.next = .wait ∨
      (transfer.queue = [] ∧ transfer.busySlots.all (!·) ∧
        transfer.next = .finalize transfer.moveSources transfer.clients.head?) ∨
      ∃ slot item queue, transfer.busySlots.findIdx? (!·) = some slot ∧
        transfer.queue = item :: queue ∧ transfer.next = .start (transfer.startItem slot item queue)
          ((transfer.startItem slot item queue).itemTask slot item) := by
  unfold TransferState.next
  by_cases paused : transfer.paused
  · exact .inl (if_pos paused)
  by_cases barred : transfer.dirSlot.isSome
  · exact .inl (by rw [if_neg paused, if_pos barred])
  by_cases drains : transfer.queue.head?.any (·.isDir) && transfer.busySlots.any id
  · exact .inl (by rw [if_neg paused, if_neg barred, if_pos drains])
  rw [if_neg paused, if_neg barred, if_neg drains]
  cases idle : transfer.busySlots.findIdx? (!·) with
  | none => exact .inl rfl
  | some slot =>
    cases waiting : transfer.queue with
    | nil =>
      dsimp only
      by_cases allIdle : transfer.busySlots.all (!·)
      · exact .inr (.inl ⟨rfl, allIdle, if_pos allIdle⟩)
      · exact .inl (if_neg allIdle)
    | cons item queue => exact .inr (.inr ⟨slot, item, queue, rfl, rfl, rfl⟩)

theorem next_of_busy (busy : transfer.busySlots = [true]) :
    transfer.next = .wait := by
  rcases next_cases transfer with wait | ⟨-, allIdle, -⟩ | ⟨slot, item, queue, idle, -⟩
  · exact wait
  · rw [busy] at allIdle
    cases allIdle
  · rw [busy] at idle
    cases idle

/-- What a move starts is a copy whose size is verified. -/
theorem itemTask_of_move (transfer : TransferState Client) (slot : Nat) (item : TransferItem)
    (relays : transfer.kind = .relay) (move : transfer.moveSources.isSome) :
    (∃ source dest, transfer.itemTask slot item = .perform slot (.relay source dest item true)) ∨
      ∃ error, transfer.itemTask slot item = .done (.error error slot) := by
  unfold TransferState.itemTask
  rw [relays, move]
  dsimp only
  split
  · exact .inr ⟨_, rfl⟩
  · split
    · exact .inr ⟨_, rfl⟩
    · exact .inl ⟨_, _, rfl⟩

theorem reports_start_task {task : Task Client} (speaks : task ≠ .done .next) :
    (owner.start [task]).reports = owner.reports ++ [⟨owner.transfer, task⟩] := by
  show (owner.tasks ++ [_]).filter (Started.reportsOn owner.transfer) = owner.reports ++ _
  rw [filter_append, Owner.reports]
  congr 1
  refine filter_cons_of_pos ?_
  unfold Started.reportsOn
  split
  · rename_i isNext
    exact absurd isNext speaks
  · exact decide_eq_true rfl

theorem OnCourse.stage_idle (onCourse : OnCourse owner transfer) (working : transfer.next ≠ .wait) :
    transfer.busySlots = [false] ∧ owner.reports = [] ∧ owner.CopiedBut transfer.queue := by
  cases onCourse.stage with
  | idle free silent copied => exact ⟨free, silent, copied⟩
  | copying busy source dest item only copied => exact absurd (next_of_busy busy) working
  | copied busy only copied => exact absurd (next_of_busy busy) working
  | failed busy error slot only => exact absurd (next_of_busy busy) working

variable {slot : Nat}

theorem OnCourse.startItem (onCourse : OnCourse owner transfer) {queue : List TransferItem}
    (idle : transfer.busySlots.findIdx? (!·) = some slot) (waiting : transfer.queue = item :: queue)
    (isNext : transfer.next ≠ .wait) :
    OnCourse ({ owner with state := some (transfer.startItem slot item queue) }.start
      [(transfer.startItem slot item queue).itemTask slot item])
      (transfer.startItem slot item queue) where
  relays := onCourse.relays
  sources := onCourse.sources
  unparked := onCourse.unparked
  stage := by
    obtain ⟨free, silent, copied⟩ := onCourse.stage_idle isNext
    rw [free] at idle
    cases idle
    rw [waiting] at copied
    have busy : (transfer.startItem 0 item queue).busySlots = [true] := by
      show transfer.busySlots.set 0 true = [true]
      rw [free]
      rfl
    have move : (transfer.startItem 0 item queue).moveSources.isSome := by
      show transfer.moveSources.isSome
      rw [onCourse.sources]
      rfl
    rcases itemTask_of_move (transfer.startItem 0 item queue) 0 item onCourse.relays move with ⟨source, dest, isTask⟩ | ⟨error, isTask⟩
    · refine .copying busy source dest item ?_ copied
      rw [isTask]
      refine (reports_start_task ?_).trans (congrArg (· ++ [_]) silent)
      nofun
    · refine .failed busy error 0 ?_
      rw [isTask]
      refine (reports_start_task ?_).trans (congrArg (· ++ [_]) silent)
      nofun

theorem sound_of_finalize {moveSources : Option (List TransferItem)} {moveClient : Option Client}
    {handed : Handed} (member : handed ∈ (owner.finalize moveSources moveClient).handed)
    (new : handed ∉ owner.handed) :
    ∃ sources, moveSources = some sources ∧
      handed = ⟨owner.transfer, owner.launched, sources, owner.relayed⟩ := by
  unfold Owner.finalize at member
  split at member
  · exact absurd member new
  · split at member
    · rename_i sources client
      rcases mem_append.mp member with old | isNew
      · exact absurd old new
      · exact ⟨sources, rfl, mem_singleton.mp isNew⟩
    · exact absurd member new

theorem finalize_rest (owner : Owner Client) (moveSources : Option (List TransferItem))
    (moveClient : Option Client) :
    (owner.finalize moveSources moveClient).state = none ∧
      (owner.finalize moveSources moveClient).transfer = owner.transfer ∧
      (owner.finalize moveSources moveClient).tasks = owner.tasks := by
  unfold Owner.finalize
  split
  · exact ⟨rfl, rfl, rfl⟩
  · split <;> exact ⟨rfl, rfl, rfl⟩

theorem guarded_next (guarded : Guarded owner) : Guarded owner.next := by
  unfold Owner.next
  cases current : owner.state with
  | none => exact guarded
  | some transfer =>
    dsimp only
    rcases next_cases transfer with isNext | ⟨emptied, -, isNext⟩ |
      ⟨slot, item, queue, idle, waiting, isNext⟩
    · rw [isNext]
      exact guarded
    · rw [isNext]
      obtain ⟨state, number, tasks⟩ :=
        finalize_rest owner transfer.moveSources transfer.clients.head?
      refine guarded.of_ended state number (tasks ▸ guarded.numbered) fun handed member new => ?_
      obtain ⟨sources, move, rfl⟩ := sound_of_finalize member new
      have onCourse := guarded.onCourse transfer current (by rw [move]; rfl)
      obtain ⟨-, -, copied⟩ := onCourse.stage_idle (by rw [isNext]; nofun)
      rw [emptied] at copied
      exact ⟨Option.some.inj (move.symm.trans onCourse.sources),
        fun item member => (copied item member).resolve_left nofun⟩
    · rw [isNext]
      refine ⟨transfer_le_of_start guarded.numbered, ?_, guarded.sound⟩
      rintro started isStarted move
      cases isStarted
      exact (guarded.onCourse transfer current move).startItem idle waiting (by rw [isNext]; nofun)

variable {index : Nat}

variable {started : Started Client}

/-- A task that says nothing on the transfer ends. -/
theorem Guarded.eraseIdx (guarded : Guarded owner) (found : owner.tasks[index]? = some started)
    (quiet : started.reportsOn owner.transfer = false) :
    Guarded { owner with tasks := owner.tasks.eraseIdx index } :=
  guarded.of_samePoint ⟨rfl, rfl, fun _ member => member⟩ rfl
    (fun _ member => guarded.numbered _ (mem_of_mem_eraseIdx member))
    (filter_eraseIdx_of_not found quiet) rfl

theorem set_false_of_ne {busySlots : List Bool} (notBusy : busySlots[slot]? ≠ some true) :
    busySlots.set slot false = busySlots := by
  cases found : busySlots[slot]? with
  | none => exact set_eq_of_length_le (List.getElem?_eq_none_iff.mp found)
  | some busy =>
    cases busy with
    | true => exact absurd found notBusy
    | false =>
      obtain ⟨bound, isFalse⟩ := List.getElem?_eq_some_iff.mp found
      have same := set_getElem_self bound
      rwa [isFalse] at same

/-- A message of an earlier transfer, or one that finds no move. -/
theorem Guarded.itemDone (guarded : Guarded owner)
    (harmless : ∀ transfer ∈ owner.state, transfer.moveSources.isSome →
      transfer.busySlots[slot]? ≠ some true) : Guarded (owner.itemDone slot) := by
  unfold Owner.itemDone
  cases current : owner.state with
  | none => exact guarded.start_nexts 1
  | some transfer =>
    have freed : Guarded { owner with state := some (transfer.itemDone slot) } := by
      refine ⟨guarded.numbered, ?_, guarded.sound⟩
      rintro done isDone move
      cases isDone
      have onCourse := guarded.onCourse transfer current move
      exact onCourse.of_samePoint ⟨rfl, rfl, fun _ member => member⟩ rfl rfl rfl
        onCourse.unparked (set_false_of_ne (harmless transfer current move)) rfl
    exact freed.start_nexts _

/-- The report on the transfer itself that its item is done. -/
theorem Guarded.itemDone_own (guarded : Guarded owner)
    (found : owner.tasks[index]? = some ⟨owner.transfer, .done (.itemDone slot)⟩) :
    Guarded ({ owner with tasks := owner.tasks.eraseIdx index }.itemDone slot) := by
  have numbered : ∀ started ∈ owner.tasks.eraseIdx index, started.transfer ≤ owner.transfer :=
    fun _ member => guarded.numbered _ (mem_of_mem_eraseIdx member)
  have speaks : (Started.mk owner.transfer (.done (.itemDone slot) : Task Client)).reportsOn
      owner.transfer := decide_eq_true rfl
  unfold Owner.itemDone
  dsimp only
  cases current : owner.state with
  | none =>
    have ended : Guarded { owner with tasks := owner.tasks.eraseIdx index } :=
      guarded.of_ended current rfl numbered fun _ member new => absurd member new
    rw [current] at ended
    exact ended.start_nexts 1
  | some transfer =>
    have freed : Guarded { owner with
        state := some (transfer.itemDone slot)
        tasks := owner.tasks.eraseIdx index } := by
      refine ⟨numbered, ?_, guarded.sound⟩
      rintro done isDone move
      cases isDone
      have onCourse := guarded.onCourse transfer current move
      refine ⟨onCourse.relays, onCourse.sources, onCourse.unparked, ?_⟩
      cases onCourse.stage with
      | idle free silent copied =>
        have member : _ ∈ owner.reports :=
          mem_filter.mpr ⟨mem_of_getElem? found, decide_eq_true rfl⟩
        rw [silent] at member
        cases member
      | copying busy source dest item only copied =>
        cases (filter_eraseIdx_of_only found speaks only).1
      | copied busy only copied =>
        obtain ⟨same, silent⟩ := filter_eraseIdx_of_only found speaks only
        cases same
        refine .idle ?_ silent copied
        show transfer.busySlots.set 0 false = [false]
        rw [busy]
        rfl
      | failed busy error slot only =>
        cases (filter_eraseIdx_of_only found speaks only).1
    exact freed.start_nexts _

theorem not_conflict_of_move (onCourse : OnCourse owner transfer) {prompt : OverwritePrompt}
    (member : ⟨owner.transfer, .done (.conflict prompt item slot)⟩ ∈ owner.tasks) :
    False := by
  have reports : _ ∈ owner.reports := mem_filter.mpr ⟨member, decide_eq_true rfl⟩
  cases onCourse.stage with
  | idle free silent copied =>
    rw [silent] at reports
    cases reports
  | copying busy source dest item only copied =>
    rw [only] at reports
    cases mem_singleton.mp reports
  | copied busy only copied =>
    rw [only] at reports
    cases mem_singleton.mp reports
  | failed busy error slot only =>
    rw [only] at reports
    cases mem_singleton.mp reports

theorem reportsOn_of_ne {transfer : Nat} (other : started.transfer ≠ transfer) :
    started.reportsOn transfer = false := by
  unfold Started.reportsOn
  split
  · rfl
  · exact decide_eq_false other

theorem guarded_deliver (guarded : Guarded owner) (undisturbed : Undisturbed owner (.deliver index))
    (delivered : owner.deliver index = some next) :
    Guarded next := by
  unfold Owner.deliver at delivered
  split at delivered
  · rename_i number message found
    cases delivered
    have numbered : ∀ started ∈ owner.tasks.eraseIdx index, started.transfer ≤ owner.transfer :=
      fun _ member => guarded.numbered _ (mem_of_mem_eraseIdx member)
    have harmless := undisturbed _ found
    cases message with
    | next => exact guarded_next (guarded.eraseIdx found rfl)
    | itemDone slot =>
      by_cases own : number = owner.transfer
      · subst own
        exact guarded.itemDone_own found
      · exact (guarded.eraseIdx found (reportsOn_of_ne own)).itemDone (harmless own)
    | conflict prompt item slot =>
      refine ⟨numbered, fun transfer current move => ?_, guarded.sound⟩
      obtain ⟨parked, isParked, rfl⟩ := Option.map_eq_some_iff.mp current
      by_cases own : number = owner.transfer
      · subst own
        exact (not_conflict_of_move (guarded.onCourse parked isParked move)
          (mem_of_getElem? found)).elim
      · exact (harmless own parked isParked move).elim
    | error error slot =>
      exact guarded.of_ended rfl rfl numbered fun _ member new => absurd member new
  · cases delivered

theorem record_rest (owner : Owner Client) (number : Nat) (job : Job Client) (outcome : Outcome) :
    (owner.record number job outcome).state = owner.state ∧
      (owner.record number job outcome).tasks = owner.tasks ∧
      (owner.record number job outcome).transfer = owner.transfer ∧
      (owner.record number job outcome).launched = owner.launched ∧
      (owner.record number job outcome).handed = owner.handed ∧
      ∀ one ∈ owner.relayed, one ∈ (owner.record number job outcome).relayed := by
  unfold Owner.record
  split
  · exact ⟨rfl, rfl, rfl, rfl, rfl, fun one member => mem_append_left _ member⟩
  · exact ⟨rfl, rfl, rfl, rfl, rfl, fun one member => member⟩

theorem reportsOn_congr {first second : Task Client} (number : Nat) {transfer : Nat}
    (firstSpeaks : first ≠ .done .next) (secondSpeaks : second ≠ .done .next) :
    (Started.mk number first).reportsOn transfer =
      (Started.mk number second).reportsOn transfer := by
  have speaks : ∀ task : Task Client, task ≠ .done .next →
      (Started.mk number task).reportsOn transfer = decide (number = transfer) := by
    intro task speaks
    unfold Started.reportsOn
    split
    · rename_i isNext
      exact absurd isNext speaks
    · rfl
  rw [speaks first firstSpeaks, speaks second secondSpeaks]

variable {outcome : Outcome}

variable {job : Job Client} {message : TransferMessage}

theorem report_ne_next (reported : job.report slot outcome = some message) :
    message ≠ .next := by
  rintro rfl
  unfold Job.report at reported
  split at reported
  · split at reported <;> cases reported
  all_goals cases reported

/-- The copy of a move's item ends. -/
theorem Stage.finish (stage : Stage owner transfer)
    (found : owner.tasks[index]? = some ⟨owner.transfer, .perform slot job⟩)
    (reported : job.report slot outcome = some message) :
    Stage ({ owner with
      tasks := owner.tasks.set index ⟨owner.transfer, .done message⟩ }.record
        owner.transfer job outcome) transfer := by
  have same : (Started.mk owner.transfer (.done message : Task Client)).reportsOn owner.transfer =
      (Started.mk owner.transfer (.perform slot job)).reportsOn owner.transfer :=
    reportsOn_congr _ (fun isNext => report_ne_next reported (Task.done.inj isNext))
      fun same => by cases same
  have speaks : (Started.mk owner.transfer (.perform slot job : Task Client)).reportsOn
      owner.transfer := decide_eq_true rfl
  cases stage with
  | idle free silent copied =>
    have member : _ ∈ owner.reports :=
      mem_filter.mpr ⟨mem_of_getElem? found, decide_eq_true rfl⟩
    rw [silent] at member
    cases member
  | copying busy source dest item only copied =>
    obtain ⟨isJob, reports⟩ :=
      filter_set_of_only found speaks only ⟨owner.transfer, .done message⟩
    rw [same, speaks, if_pos rfl] at reports
    cases isJob
    cases outcome with
    | done | conflict _ _ | failed _ => cases reported
    | answered answers =>
      have recorded : SamePoint owner ({ owner with
          tasks := owner.tasks.set index ⟨owner.transfer, .done message⟩ }.record owner.transfer
            (.relay source dest item true) (.answered answers)) :=
        ⟨rfl, rfl, fun one member => mem_append_left _ member⟩
      dsimp only [Job.report] at reported
      cases done : doRelayItem answers item true with
      | error error =>
        rw [done] at reported
        cases reported
        exact .failed busy error 0 reports
      | ok value =>
        rw [done] at reported
        cases reported
        refine .copied busy reports fun other member => ?_
        rcases recorded.copiedBut copied other member with isNext | isCopied
        · rcases mem_cons.mp isNext with rfl | waiting
          · exact .inr ⟨_, mem_append_right _ (mem_singleton.mpr rfl), rfl, rfl,
              copied_of_doRelayItem done⟩
          · exact .inl waiting
        · exact .inr isCopied
  | copied busy only copied =>
    cases (filter_set_of_only found speaks only ⟨owner.transfer, .done message⟩).1
  | failed busy error slot only =>
    cases (filter_set_of_only found speaks only ⟨owner.transfer, .done message⟩).1

theorem guarded_finish (guarded : Guarded owner) (finished : owner.finish index outcome = some next) : Guarded next := by
  unfold Owner.finish at finished
  split at finished
  · rename_i number slot job found
    obtain ⟨message, reported, rfl⟩ := Option.map_eq_some_iff.mp finished
    obtain ⟨state, tasks, transfer, launched, handed, relayed⟩ := record_rest
      { owner with tasks := owner.tasks.set index ⟨number, .done message⟩ } number job outcome
    have numbered : ∀ started ∈ owner.tasks.set index ⟨number, .done message⟩,
        started.transfer ≤ owner.transfer := by
      intro started member
      rcases mem_or_eq_of_mem_set member with old | rfl
      · exact guarded.numbered started old
      · exact guarded.numbered ⟨number, .perform slot job⟩ (mem_of_getElem? found)
    by_cases own : number = owner.transfer
    · subst own
      refine ⟨?_, ?_, ?_⟩
      · rw [tasks, transfer]
        exact numbered
      · rw [state]
        intro current isCurrent move
        have onCourse := guarded.onCourse current isCurrent move
        exact ⟨onCourse.relays, by rw [launched]; exact onCourse.sources, onCourse.unparked,
          onCourse.stage.finish found reported⟩
      · rw [handed]
        exact guarded.sound
    · refine guarded.of_samePoint ⟨transfer, launched, relayed⟩ state ?_ ?_ handed
      · rw [tasks]
        exact numbered
      · show List.filter _ _ = _
        rw [tasks, transfer]
        have quiet : ∀ task : Task Client, (Started.mk number task).reportsOn owner.transfer = false :=
          fun task => reportsOn_of_ne own
        exact filter_set_of_not found (quiet _) (quiet _)
  · cases finished

/-- The answer to a question about a parked item is about a copy: nothing parks in a move. -/
theorem Guarded.of_parked (guarded : Guarded owner) (current : owner.state = some transfer)
    (parked : transfer.pendingConflictItem = some item)
    (same : other.moveSources = transfer.moveSources)
    (isNext : next = { owner with state := some other, overwritePrompt := none }.start tasks) :
    Guarded next := by
  subst isNext
  refine guarded.of_noMove ?_ rfl (transfer_le_of_start guarded.numbered)
    fun _ member new => absurd member new
  rintro _ isOther move
  cases isOther
  rw [same] at move
  have unparked := (guarded.onCourse transfer current move).unparked
  rw [parked] at unparked
  cases unparked

theorem guarded_resolveOverwrite (guarded : Guarded owner) (action : OverwriteAction)
    (paneClient : Option Client) :
    Guarded (owner.resolveOverwrite action paneClient) := by
  unfold Owner.resolveOverwrite
  split
  · exact guarded
  rename_i prompt asked
  have answered : Guarded { owner with overwritePrompt := none } :=
    guarded.of_samePoint ⟨rfl, rfl, fun _ member => member⟩ rfl guarded.numbered rfl rfl
  dsimp only
  split
  · exact answered
  split
  · exact answered
  rename_i transfer current
  split
  · refine ⟨guarded.numbered, ?_, guarded.sound⟩
    rintro unparked isUnparked move
    cases isUnparked
    exact (guarded.onCourse transfer current move).of_samePoint
      ⟨rfl, rfl, fun _ member => member⟩ rfl rfl rfl rfl rfl rfl
  · rename_i item parked
    split
    · refine guarded.of_parked current parked ?_ rfl
      split <;> rfl
    · unfold Owner.applyParked
      split
      · refine guarded.of_parked current parked ?_ rfl
        rfl
      · refine guarded.of_parked current parked ?_ rfl
        rfl

theorem guarded_step {action : Action Client} (guarded : Guarded owner)
    (undisturbed : Undisturbed owner action) (stepped : runner.step owner action = some next) :
    Guarded next := by
  cases action with
  | queueReady launch =>
    cases stepped
    exact guarded_queueReady guarded launch
  | deliver index => exact guarded_deliver guarded undisturbed stepped
  | finish index outcome => exact guarded_finish guarded stepped
  | cancelTransfer =>
    cases stepped
    exact guarded.of_ended rfl rfl guarded.numbered fun _ member new => absurd member new
  | toggleApplyToAll | otherPrompt _ =>
    cases stepped
    exact guarded.of_samePoint ⟨rfl, rfl, fun _ member => member⟩ rfl guarded.numbered rfl rfl
  | resolveOverwrite action paneClient =>
    cases stepped
    exact guarded_resolveOverwrite guarded action paneClient

theorem guarded_initial (sidebar : Bool) : Guarded (Owner.initial sidebar : Owner Client) where
  numbered := forall_mem_nil _
  onCourse := fun _ none => nomatch none
  sound := forall_mem_nil _

/-- Where no message of an earlier transfer frees the slot of a move's item or parks an item in a
move, moves delete only what they have copied. -/
theorem handsOverOnlyCopied_of_run {sidebar : Bool} {actions : List (Action Client)}
    {final : Owner Client} (undisturbed : runner.Along Undisturbed (.initial sidebar) actions)
    (ran : runner.run (.initial sidebar) actions = some final) : HandsOverOnlyCopied final := by
  have guarded : Guarded final := Machine.invariant
    (fun _ _ _ guarded here stepped => guarded_step guarded here stepped)
    (guarded_initial sidebar) undisturbed ran
  exact fun handed member =>
    ⟨guarded.sound handed member, fun answer => orderly_removeMovedSources answer handed.sources⟩

def movedItem : TransferItem := ⟨"/srv/notes", "/mnt/notes", false, some 3⟩

/-- The hosts answer that a file of three bytes is there. -/
def landed : Outcome :=
  .answered ⟨.error "", .error "", .ok (), .error "", .ok 3⟩

/-- A download is cancelled while its worker runs, and a move gets ready. -/
def replaced : List (Action Unit) :=
  [.queueReady (.batch .download [⟨"/srv/old", "/tmp/old", false, none⟩] [()] 1), .deliver 0,
    .cancelTransfer, .queueReady (.relay [movedItem] () () true)]

/-- The worker's message comes while the move's item is under way. -/
def reportBetween : List (Action Unit) :=
  replaced ++ [.deliver 1, .finish 0 .done, .deliver 0, .deliver 1]

/-- The move hands over its source, and nothing of it has been copied. -/
theorem not_handsOverOnlyCopied_reportBetween :
    ¬ ∀ final, runner.run (.initial false) reportBetween = some final →
      HandsOverOnlyCopied final := by
  intro always
  have early : (runner.run (.initial false) reportBetween).any (fun final =>
      final.handed.any fun handed => handed.launched.contains movedItem &&
        handed.relayed.isEmpty) = true := by
    decide +kernel
  obtain ⟨final, ran, someHanded⟩ := (Option.any_eq_true _ _).mp early
  obtain ⟨handed, member, uncopied⟩ := any_eq_true.mp someHanded
  rw [Bool.and_eq_true, contains_iff_mem, List.isEmpty_iff] at uncopied
  obtain ⟨launched, nothing⟩ := uncopied
  obtain ⟨one, relayed, -⟩ := (always final ran handed member).1.copied movedItem launched
  rw [nothing] at relayed
  cases relayed

/-- The worker's message comes before the move's item is started. -/
def reportBefore : List (Action Unit) :=
  replaced ++ [.finish 0 .done, .deliver 0, .deliver 0, .finish 1 landed, .deliver 1, .deliver 0]

theorem handsOverOnlyCopied_reportBefore : ∃ final,
    runner.run (.initial false) reportBefore = some final ∧ HandsOverOnlyCopied final ∧
      final.handed.length = 1 := by
  have handed : (runner.run (.initial false) reportBefore).any (fun final =>
      final.handed.length = 1) = true := by
    decide +kernel
  obtain ⟨final, ran, one⟩ := (Option.any_eq_true _ _).mp handed
  exact ⟨final, ran, handsOverOnlyCopied_of_run (by decide +kernel) ran, of_decide_eq_true one⟩

end Oryxis.Transfer

/-
This file proves how far the assistant goes unattended.

The gate counts what has run since the user last took control, and it looks at the count
when a command is proposed; the count moves when the command is run. Between the two
another command may be let through by the same count, for a retry starts a stream of its
own: so more can run than the cap, and one command twice. Where nothing unattended is on
its way when a command is let through, the bound is kept, and where nothing is let through
or approved that is on its way already, nothing runs twice. What the gate itself looks at
is no matter of order: a command that runs unasked is either of a granted name or was
called safe and is none of the destructive ones, in every run.
-/

import Oryxis.Assistant.Views

namespace Oryxis.Assistant

open Library List

variable {Host : Type*}

/-! ### What should hold -/

/-- The user takes control again. -/
def Gesture.retakes : Gesture → Bool
  | .sendChat _ | .chatResetConversation | .chatToolApprove _ | .chatToolApproveAlways _ => true
  | .chatRetry | .chatToolDeny _ | .chatModeChanged _ | .chatStop => false

/-- What was written since the user last took control. -/
def period : List (Event Host) → List (Written Host)
  | [] => []
  | .wrote written :: earlier => written :: period earlier
  | .gestured _ _ gesture :: earlier => if gesture.retakes then [] else period earlier

def Written.unattended (written : Written Host) : Bool := written.origin.way ≠ .approved

/-- A single command whose name was granted. -/
def Written.listed (written : Written Host) : Bool :=
  written.isGranted && !hasShellChaining written.command

/-- What was written that is not on the list. -/
def unlisted (writes : List (Written Host)) : List String :=
  (writes.filter fun written => !written.listed).map Written.command

/-- What ran unattended off the list is not destructive and was called safe. -/
def Written.Vetted (written : Written Host) : Prop :=
  written.unattended = true → written.listed = false →
    isObviouslyDestructive written.command = false ∧ written.risk = "safe"

/-- Since the user last took control no more ran unattended than the cap and nothing off the list
twice; and what ran is vetted. -/
structure Bounded (log : List (Event Host)) : Prop where
  few : (period log).countP Written.unattended ≤ chatAutoRunStreakMax
  once : (unlisted (period log)).Nodup
  vetted : ∀ written, .wrote written ∈ log → written.Vetted

/-! ### The condition -/

/-- A single command whose name is granted. -/
def lists (granted : List String) (command : String) : Bool :=
  granted.contains (firstToken command) && !hasShellChaining command

def Envelope.exec (envelope : Envelope) : Option String := envelope.message.exec

/-- A message that has a command run without the user's approval. -/
def Envelope.unattended (envelope : Envelope) : Bool :=
  envelope.exec.isSome && envelope.origin.way ≠ .approved

/-- The commands on their way to the terminal: those before a judge, and those let through. -/
def onTheWay (tasks : List ChatTask) (stirring : List Envelope) : List String :=
  tasks.filterMap ChatTask.judged ++ stirring.filterMap Envelope.exec

/-- How many of them are on their way unattended. -/
def unattended (tasks : List ChatTask) (stirring : List Envelope) : Nat :=
  (tasks.filterMap ChatTask.judged).length + stirring.countP Envelope.unattended

/-- A command proposed is let through alone. -/
def LetThroughAlone (app : App Host) (tabId : Nat) (standing : Standing Host)
    (command risk : String) : Prop :=
  match classifyToolGate (standing.gateInput command risk) with
  | .autoExec => unattended (app.view tabId).tasks (app.view tabId).stirring = 0
  | .judge => unattended (app.untracked tabId) (app.view tabId).stirring = 0 ∧
      command ∉ onTheWay (app.untracked tabId) (app.view tabId).stirring
  | .confirm | .prompt => True

/-- Nothing unattended is on its way when the gate lets a command through, but for the judge the
command takes the place of; and none is let through or approved that is on its way already, unless
it is on the list. -/
def OneByOne (app : App Host) : Action Host → Prop
  | .deliver index => ∀ envelope ∈ app.mail[index]?, ∀ standing ∈ app.standing envelope.tabId,
    match envelope.message with
    | .chatToolProposed command risk _ =>
      LetThroughAlone app envelope.tabId standing command risk
    | _ => True
  | .gesture gesture => ∀ tabId ∈ app.activeTab, ∀ standing ∈ app.standing tabId,
    match gesture with
    | .chatToolApprove command => lists standing.granted command = true ∨
      command ∉ onTheWay (app.view tabId).tasks (app.view tabId).stirring
    | .chatToolApproveAlways command =>
      (firstToken command ≠ "" ∧ hasShellChaining command = false) ∨
        command ∉ onTheWay (app.view tabId).tasks (app.view tabId).stirring
    | _ => True
  | _ => True

/-! ### What the gate looks at -/

variable {granted more : List String}

theorem lists_mono {command : String} (grows : ∀ name ∈ granted, name ∈ more)
    (listed : lists granted command = true) :
    lists more command = true := by
  rw [lists, Bool.and_eq_true, contains_iff_mem] at listed ⊢
  exact ⟨grows _ listed.1, listed.2⟩

/-- A judge is asked about nothing but what was called safe and is not destructive. -/
def ChatTask.Vetted (task : ChatTask) : Prop :=
  ∀ command risk thoughtSignature, task.work = .judge command risk thoughtSignature →
    isObviouslyDestructive command = false ∧ risk = "safe"

/-- A command let through was approved, is such a one or is on the list. -/
def Envelope.Vetted (granted : List String) (envelope : Envelope) : Prop :=
  ∀ command risk thoughtSignature, envelope.message = .chatToolExec command risk thoughtSignature →
    envelope.origin.way = .approved ∨ (isObviouslyDestructive command = false ∧ risk = "safe") ∨
      lists granted command = true

theorem Envelope.Vetted.mono {envelope : Envelope} (vetted : envelope.Vetted granted)
    (grows : ∀ name ∈ granted, name ∈ more) :
    envelope.Vetted more := fun command risk thoughtSignature isExec =>
  (vetted command risk thoughtSignature isExec).imp_right (·.imp_right (lists_mono grows))

/-- What is under way and what was written unasked has passed the gate. -/
structure View.Vetted (view : View Host) : Prop where
  tasks : ∀ task ∈ view.tasks, task.Vetted
  stirring : ∀ standing ∈ view.standing, ∀ envelope ∈ view.stirring,
    envelope.Vetted standing.granted
  written : ∀ written, .wrote written ∈ view.log → written.Vetted

section

variable {app : App Host} {tabId : Nat} {view : View Host}

variable {α : Type*} {holds : α → Prop} {list : List α}

theorem forall_mem_of_sublist {fewer : List α} (all : ∀ one ∈ list, holds one)
    (less : fewer.Sublist list) : ∀ one ∈ fewer, holds one :=
  fun one member => all one (less.subset member)

theorem forall_mem_concat {last : α} (all : ∀ one ∈ list, holds one) (lastHolds : holds last) :
    ∀ one ∈ list ++ [last], holds one :=
  forall_mem_append.mpr ⟨all, forall_mem_singleton.mpr lastHolds⟩

theorem written_gestured {log : List (Event Host)} {host : Host} {gesture : Gesture}
    (written : ∀ written, .wrote written ∈ log → written.Vetted) :
    ∀ one, .wrote one ∈ Event.gestured tabId host gesture :: log → one.Vetted := by
  intro one member
  rcases mem_cons.mp member with other | old
  · cases other
  · exact written one old

theorem View.Vetted.step {action : Action Host} (vetted : (app.view tabId).Vetted)
    (move : TabMove app tabId action view) : view.Vetted := by
  -- The tab's names are those of the standing it has.
  have same (standing : Standing Host) (isTab : app.standing tabId = some standing)
      (one : Standing Host) (isOne : one ∈ app.standing tabId) : one = standing := by
    rw [isTab] at isOne
    exact (Option.some.inj isOne).symm
  have taken (index : Nat) (standing : Standing Host) (isTab : app.standing tabId = some standing) :
      ∀ envelope ∈ ((app.erase index).view tabId).stirring, envelope.Vetted standing.granted :=
    forall_mem_of_sublist (vetted.stirring standing isTab) (erase_sublist index)
  have untracked : ∀ task ∈ app.untracked tabId, task.Vetted :=
    forall_mem_of_sublist vetted.tasks (untracked_sublist app tabId)
  cases move with
  | idle standing tasks stirring log =>
    refine ⟨forall_mem_of_sublist vetted.tasks tasks, fun one isOne => ?_, log ▸ vetted.written⟩
    rcases standing with unchanged | gone
    · rw [unchanged] at isOne
      exact forall_mem_of_sublist (vetted.stirring one isOne) stirring
    · rw [gone] at isOne
      cases isOne
  | @proposes task live _ isStream id command risk thoughtSignature =>
    refine ⟨fun later member => ?_, fun one isOne => ?_, vetted.written⟩
    · obtain ⟨earlier, isLive, rfl⟩ := mem_map.mp member
      unfold ChatTask.emitted
      split
      · exact nofun
      · exact vetted.tasks earlier isLive
    · exact forall_mem_concat (vetted.stirring one isOne) nofun
  | @allows task live command risk thoughtSignature isJudge id =>
    refine ⟨forall_mem_of_sublist vetted.tasks filter_sublist, fun one isOne => ?_,
      vetted.written⟩
    refine forall_mem_concat (vetted.stirring one isOne) fun command risk _ isExec => ?_
    cases isExec
    exact .inr (.inl (vetted.tasks task live _ _ _ isJudge))
  | @polled task live toolId isPoll id output =>
    exact ⟨forall_mem_of_sublist vetted.tasks filter_sublist,
      fun one isOne => forall_mem_concat (vetted.stirring one isOne) nofun, vetted.written⟩
  | @granted index envelope found own command risk thoughtSignature isProposed standing isTab gate
      sender =>
    refine ⟨vetted.tasks, fun one isOne => ?_, vetted.written⟩
    rw [same standing isTab one isOne]
    refine forall_mem_concat (taken index standing isTab) fun name _ _ isExec => ?_
    cases isExec
    obtain ⟨allowed, simple, _⟩ := allowed_of_autoExec gate
    refine .inr (.inr ?_)
    change standing.granted.contains (firstToken command) = true at allowed
    change hasShellChaining command = false at simple
    rw [lists, allowed, simple]
    rfl
  | @judges index envelope found own command risk thoughtSignature isProposed standing isTab gate
      id =>
    have judged := judged_of_judge gate
    refine ⟨forall_mem_concat untracked fun name _ _ isJudge => ?_, fun one isOne => ?_,
      vetted.written⟩
    · cases isJudge
      exact ⟨judged.harmless, of_decide_eq_true judged.safe⟩
    · rw [same standing isTab one isOne]
      exact taken index standing isTab
  | @types index envelope found own command risk thoughtSignature isExec standing isTab id toolId =>
    refine ⟨forall_mem_concat untracked nofun, fun one isOne => ?_, fun one member => ?_⟩
    · cases isOne
      exact taken index standing isTab
    · rcases mem_cons.mp member with isNew | old
      · cases isNew
        have member := mem_of_found found own (by rw [Envelope.stirs, isExec]; rfl)
        intro unasked off
        rcases vetted.stirring standing isTab envelope member _ _ _ isExec with
          approved | safe | listed
        · exact absurd approved (of_decide_eq_true unasked)
        · exact safe
        · cases off.symm.trans listed
      · exact vetted.written one old
  | @misses index envelope found own command risk thoughtSignature isExec standing isTab =>
    refine ⟨vetted.tasks, fun one isOne => ?_, vetted.written⟩
    cases isOne
    exact taken index standing isTab
  | @continues index envelope found own toolId output isResult standing isTab id =>
    refine ⟨forall_mem_concat untracked nofun, fun one isOne => ?_, vetted.written⟩
    rw [same standing isTab one isOne]
    exact taken index standing isTab
  | @sends inFront standing isTab input id =>
    refine ⟨forall_mem_concat untracked nofun, fun one isOne => ?_,
      written_gestured vetted.written⟩
    cases isOne
    exact vetted.stirring standing isTab
  | @retries inFront standing isTab id =>
    exact ⟨forall_mem_concat untracked nofun, vetted.stirring, written_gestured vetted.written⟩
  | @approves inFront standing other isTab gesture command approved id thoughtSignature =>
    refine ⟨vetted.tasks, fun one isOne => ?_, written_gestured vetted.written⟩
    cases isOne
    refine forall_mem_concat (fun envelope member => ?_) fun _ _ _ _ => .inl rfl
    refine (vetted.stirring standing isTab envelope member).mono fun name known => ?_
    rcases approved with ⟨_, rfl⟩ | ⟨_, granted, ⟨rfl, _⟩ | rfl, rfl⟩
    · exact known
    · exact known
    · exact mem_append_left _ known
  | @denies inFront standing isTab command =>
    exact ⟨vetted.tasks, vetted.stirring, written_gestured vetted.written⟩
  | @halts inFront standing other isTab gesture halted =>
    refine ⟨untracked, fun one isOne => ?_, written_gestured vetted.written⟩
    cases isOne
    rcases halted with ⟨_, rfl⟩ | ⟨_, rfl⟩
    · exact vetted.stirring _ isTab
    · exact vetted.stirring standing isTab
  | @sets inFront standing isTab mode =>
    refine ⟨vetted.tasks, fun one isOne => ?_, written_gestured vetted.written⟩
    cases isOne
    exact vetted.stirring standing isTab
  | @faces action standing isTab moves pane host =>
    refine ⟨vetted.tasks, fun one isOne => ?_, vetted.written⟩
    cases isOne
    exact vetted.stirring standing isTab

end

def App.Vetted (app : App Host) : Prop := ∀ tabId, (app.view tabId).Vetted

theorem vetted_initial {app : App Host} (initial : app.Initial) : app.Vetted := by
  intro tabId
  obtain ⟨idle, unread, unlogged⟩ := initial.view tabId
  refine ⟨?_, fun _ _ => ?_, fun _ member => ?_⟩
  · rw [idle]
    exact forall_mem_nil _
  · rw [unread]
    exact forall_mem_nil _
  · rw [unlogged] at member
    cases member

/-- In every run, whatever the order, what is written unasked has passed the gate. -/
theorem vetted_of_run {app final : App Host} {actions : List (Action Host)}
    (initial : app.Initial) (ran : assistant.run app actions = some final) : final.Vetted := by
  have kept (app : App Host) (action : Action Host) (next : App Host) (vetted : app.Vetted)
      (_ : True) (stepped : assistant.step app action = some next) : next.Vetted :=
    fun tabId => (vetted tabId).step (tabMove_of_step stepped tabId)
  exact Machine.invariant kept (vetted_initial initial) (Machine.along_true _ _ _) ran

/-! ### What is on its way -/

section

variable {tasks others : List ChatTask} {stirring messages : List Envelope}

variable {α : Type*}

theorem filterMap_singleton {β : Type*} (read : α → Option β) (one : α) :
    [one].filterMap read = (read one).toList := by
  cases isRead : read one with
  | none => exact filterMap_cons_none isRead
  | some value => exact filterMap_cons_some isRead

theorem countP_singleton (holds : α → Bool) (one : α) :
    [one].countP holds = (holds one).toNat := by
  cases isTrue : holds one <;> simp [isTrue]

theorem count_start (task : ChatTask) (command : String) :
    (onTheWay (tasks ++ [task]) stirring).count command =
      (onTheWay tasks stirring).count command + task.judged.toList.count command := by
  rw [onTheWay, onTheWay, filterMap_append, filterMap_singleton]
  simp only [count_append]
  omega

theorem unattended_start (task : ChatTask) :
    unattended (tasks ++ [task]) stirring =
      unattended tasks stirring + task.judged.toList.length := by
  rw [unattended, unattended, filterMap_append, filterMap_singleton, length_append]
  omega

theorem count_say (envelope : Envelope) (command : String) :
    (onTheWay tasks (stirring ++ [envelope])).count command =
      (onTheWay tasks stirring).count command + envelope.exec.toList.count command := by
  rw [onTheWay, onTheWay, filterMap_append, filterMap_singleton]
  simp only [count_append]
  omega

theorem unattended_say (envelope : Envelope) :
    unattended tasks (stirring ++ [envelope]) =
      unattended tasks stirring + envelope.unattended.toNat := by
  rw [unattended, unattended, countP_append, countP_singleton]
  omega

variable {envelope : Envelope}

theorem count_taken (taken : stirring.Perm (envelope :: messages)) (command : String) :
    (onTheWay tasks stirring).count command =
      (onTheWay tasks messages).count command + envelope.exec.toList.count command := by
  have last : stirring.Perm (messages ++ [envelope]) :=
    taken.trans (perm_append_singleton envelope messages).symm
  rw [← count_say, onTheWay, onTheWay, count_append, count_append,
    (last.filterMap Envelope.exec).count_eq]

theorem unattended_taken (taken : stirring.Perm (envelope :: messages)) :
    unattended tasks stirring = unattended tasks messages + envelope.unattended.toNat := by
  have last : stirring.Perm (messages ++ [envelope]) :=
    taken.trans (perm_append_singleton envelope messages).symm
  rw [← unattended_say, unattended, unattended, last.countP_eq]

/-- Less is on its way, or the same. -/
structure NoMore (tasks others : List ChatTask) (stirring messages : List Envelope) : Prop where
  count : ∀ command,
    (onTheWay others messages).count command ≤ (onTheWay tasks stirring).count command
  unattended : unattended others messages ≤ unattended tasks stirring

theorem noMore_of_sublist (fewer : others.Sublist tasks) (less : messages.Sublist stirring) :
    NoMore tasks others stirring messages where
  count := ((fewer.filterMap _).append (less.filterMap _)).count_le
  unattended := Nat.add_le_add (fewer.filterMap _).length_le less.countP_le

variable {task : ChatTask}

/-- A task that is no judge has nothing to do with it. -/
theorem NoMore.start (noMore : NoMore tasks others stirring messages)
    (unjudged : task.judged = none) : NoMore tasks (others ++ [task]) stirring messages where
  count command := by
    rw [count_start, unjudged]
    exact noMore.count command
  unattended := by
    rw [unattended_start, unjudged]
    exact noMore.unattended

/-- And so has a message that runs nothing. -/
theorem NoMore.say (noMore : NoMore tasks others stirring messages) (unheard : envelope.exec = none) : NoMore tasks others stirring (messages ++ [envelope]) where
  count command := by
    rw [count_say, unheard]
    exact noMore.count command
  unattended := by
    rw [unattended_say, Envelope.unattended, unheard]
    exact noMore.unattended

theorem filterMap_emitted {stream : ChatTask} (unjudged : stream.judged = none) :
    (tasks.map stream.emitted).filterMap ChatTask.judged = tasks.filterMap ChatTask.judged := by
  rw [filterMap_map]
  congr 1
  funext task
  show (stream.emitted task).judged = task.judged
  unfold ChatTask.emitted
  split
  · rename_i same
    rw [same, unjudged]
    rfl
  · rfl

/-- A judge's verdict takes the command from the judge. -/
theorem noMore_allows (live : task ∈ tasks) {command : String} (judged : task.judged = some command)
    (said : envelope.exec = some command) :
    NoMore tasks (tasks.filter (·.id ≠ task.id)) stirring (stirring ++ [envelope]) := by
  have ended : [task].Sublist (tasks.filter fun one => !decide (one.id ≠ task.id)) :=
    singleton_sublist.mpr (mem_filter.mpr ⟨live, by simp⟩)
  have split : (tasks.filter (·.id ≠ task.id) ++
      tasks.filter fun one => !decide (one.id ≠ task.id)).Perm tasks :=
    filter_append_perm _ tasks
  have fewer := ((Sublist.refl (tasks.filter (·.id ≠ task.id))).append ended).filterMap
    ChatTask.judged
  have same := split.filterMap ChatTask.judged
  rw [filterMap_append, filterMap_cons_some judged, filterMap_nil] at fewer
  refine ⟨fun one => ?_, ?_⟩
  · have less := fewer.count_le one
    rw [same.count_eq, count_append] at less
    rw [count_say, said, onTheWay, onTheWay, count_append, count_append]
    change _ + [command].count one ≤ _
    omega
  · have less := fewer.length_le
    rw [same.length_eq, length_append] at less
    have once : envelope.unattended.toNat ≤ 1 := Bool.toNat_le _
    change _ + 1 ≤ _ at less
    rw [unattended_say, unattended, unattended]
    omega

end

/-! ### What is counted -/

/-- The tab's counters know what was written since the user took control. Beyond the last fifty
commands they do not, but so far nothing runs unasked. -/
structure Standing.Counts (standing : Standing Host) (writes : List (Written Host)) : Prop where
  streak : writes.length ≤ standing.streak
  history : standing.history.length ≤ standing.streak
  known : standing.streak ≤ 50 → ∀ written ∈ writes, written.command ∈ standing.history

namespace Standing

variable {standing : Standing Host} {writes later : List (Written Host)}

theorem counts_resetGuard (standing : Standing Host) : standing.resetGuard.Counts [] where
  streak := Nat.le_refl _
  history := Nat.le_refl _
  known _ _ member := absurd member not_mem_nil

theorem Counts.count (counts : standing.Counts writes) {command : String}
    (most : later.length ≤ writes.length + 1)
    (old : ∀ written ∈ later, written ∈ writes ∨ written.command = command) :
    (standing.count command).Counts later := by
  obtain ⟨streak, history, known⟩ := counts
  have grown : (standing.history ++ [command]).length = standing.history.length + 1 :=
    length_append
  refine ⟨?_, ?_, fun small written member => ?_⟩
  · show later.length ≤ standing.streak + 1
    omega
  · show List.length (if _ then _ else _) ≤ standing.streak + 1
    split
    · rw [length_tail]
      omega
    · omega
  · -- So few have been counted that none is forgotten.
    change standing.streak + 1 ≤ 50 at small
    show written.command ∈ if _ then _ else _
    rw [if_neg (by omega)]
    rcases old written member with before | rfl
    · exact mem_append_left _ (known (by omega) written before)
    · exact mem_append_right _ mem_cons_self

end Standing

/-- The bound, with room for what is on its way. -/
structure View.Counted (view : View Host) : Prop where
  counts : ∀ standing ∈ view.standing, standing.Counts (period view.log)
  few : (period view.log).countP Written.unattended + unattended view.tasks view.stirring ≤
    chatAutoRunStreakMax
  once : (unlisted (period view.log)).Nodup
  apart : ∀ standing ∈ view.standing, ∀ command, lists standing.granted command = false →
    (unlisted (period view.log)).count command +
      (onTheWay view.tasks view.stirring).count command ≤ 1

section

variable {app : App Host} {tabId : Nat} {view : View Host}

/-- A move after which no more is on its way, and the user has taken control or not. -/
theorem View.Counted.less (counted : (app.view tabId).Counted)
    (noMore : NoMore (app.view tabId).tasks view.tasks (app.view tabId).stirring view.stirring)
    (writes : period view.log = period (app.view tabId).log ∨ period view.log = [])
    (standing : ∀ one ∈ view.standing, one.Counts (period view.log) ∧
      ∃ before ∈ app.standing tabId, before.granted = one.granted) : view.Counted := by
  obtain ⟨counts, few, once, apart⟩ := counted
  have fewer := noMore.unattended
  refine ⟨fun one isOne => (standing one isOne).1, ?_, ?_, fun one isOne command off => ?_⟩
  · rcases writes with same | none
    · rw [same]
      omega
    · rw [none, countP_nil]
      omega
  · rcases writes with same | none
    · rw [same]
      exact once
    · rw [none]
      exact nodup_nil
  · obtain ⟨_, before, isBefore, sameNames⟩ := standing one isOne
    rw [← sameNames] at off
    have before := apart before isBefore command off
    have less := noMore.count command
    rcases writes with same | none
    · rw [same]
      omega
    · have naught : (unlisted (period view.log)).count command = 0 := by
        rw [none]
        rfl
      omega

/-- A move that leaves the standing as it is. -/
theorem View.Counted.kept (counted : (app.view tabId).Counted)
    (noMore : NoMore (app.view tabId).tasks view.tasks (app.view tabId).stirring view.stirring)
    (log : period view.log = period (app.view tabId).log)
    (standing : view.standing = app.standing tabId) : view.Counted := by
  refine counted.less noMore (.inl log) fun one isOne => ?_
  rw [standing] at isOne
  rw [log]
  exact ⟨counted.counts one isOne, one, isOne, rfl⟩

/-- What the counters do not know was not written. -/
theorem Standing.Counts.count_unlisted {standing : Standing Host} {writes : List (Written Host)}
    (counts : standing.Counts writes) (small : standing.streak ≤ 50) {command : String}
    (unknown : standing.history.contains command = false) :
    (unlisted writes).count command = 0 := by
  refine count_eq_zero.mpr fun member => ?_
  obtain ⟨written, kept, rfl⟩ := mem_map.mp member
  have known := counts.known small written (mem_of_mem_filter kept)
  rw [contains_iff_mem.mpr known] at unknown
  cases unknown

/-- Below the cap there is room for one more. -/
theorem Standing.Counts.room {standing : Standing Host} {writes : List (Written Host)}
    (counts : standing.Counts writes)
    (below : decide (chatAutoRunStreakMax ≤ standing.streak) = false) :
    writes.countP Written.unattended + 1 ≤ chatAutoRunStreakMax := by
  have written : writes.countP Written.unattended ≤ standing.streak :=
    countP_le_length.trans counts.streak
  exact written.trans_lt (not_le.mp (of_decide_eq_false below))

theorem unlisted_cons (written : Written Host) (writes : List (Written Host)) :
    unlisted (written :: writes) =
      if written.listed = true then unlisted writes else written.command :: unlisted writes := by
  unfold unlisted
  by_cases listed : written.listed = true
  · rw [if_pos listed, filter_cons_of_neg (by simp [listed])]
  · rw [if_neg listed, filter_cons_of_pos (by simp [listed]), map_cons]

/-- A command goes from the messages to the log, which keeps each sum. -/
theorem View.Counted.write (counted : (app.view tabId).Counted) {standing : Standing Host}
    (isTab : app.standing tabId = some standing) {written : Written Host}
    (named : written.listed = lists standing.granted written.command) {tasks : List ChatTask}
    {stirring : List Envelope}
    (count : ∀ command, (onTheWay tasks stirring).count command + [written.command].count command ≤
      (onTheWay (app.view tabId).tasks (app.view tabId).stirring).count command)
    (fewer : Assistant.unattended tasks stirring + written.unattended.toNat ≤
      Assistant.unattended (app.view tabId).tasks (app.view tabId).stirring) :
    View.Counted ⟨some (standing.count written.command), tasks, stirring,
      .wrote written :: (app.view tabId).log⟩ := by
  obtain ⟨counts, few, once, apart⟩ := counted
  refine ⟨fun one isOne => ?_, ?_, ?_, fun one isOne name off => ?_⟩
  · cases isOne
    refine (counts standing isTab).count (Nat.le_refl _) fun one member => ?_
    exact (mem_cons.mp member).symm.imp_right fun same => by rw [same]
  · show (written :: period (app.view tabId).log).countP Written.unattended +
      Assistant.unattended tasks stirring ≤ _
    rw [← singleton_append, countP_append, countP_singleton]
    omega
  · show (unlisted (written :: period (app.view tabId).log)).Nodup
    rw [unlisted_cons]
    split
    · exact once
    · rename_i off
      rw [Bool.not_eq_true, named] at off
      have room := apart standing isTab _ off
      have onWay := count written.command
      rw [count_singleton_self] at onWay
      exact nodup_cons.mpr ⟨count_eq_zero.mp (by omega), once⟩
  · cases isOne
    have room := apart standing isTab name off
    have onWay := count name
    show (unlisted (written :: period (app.view tabId).log)).count name +
      (onTheWay tasks stirring).count name ≤ 1
    rw [unlisted_cons]
    split
    · omega
    · rw [← singleton_append, count_append]
      omega

theorem View.Counted.step {action : Action Host} (counted : (app.view tabId).Counted)
    (oneByOne : OneByOne app action) (move : TabMove app tabId action view) : view.Counted := by
  have untracked (index : Nat) : NoMore (app.view tabId).tasks (app.untracked tabId)
      (app.view tabId).stirring ((app.erase index).view tabId).stirring :=
    noMore_of_sublist (untracked_sublist app tabId) (erase_sublist index)
  cases move with
  | idle standing tasks stirring log =>
    refine counted.less (noMore_of_sublist tasks stirring) (.inl (by rw [log])) fun one isOne => ?_
    rcases standing with same | gone
    · rw [same] at isOne
      rw [log]
      exact ⟨counted.counts one isOne, one, isOne, rfl⟩
    · rw [gone] at isOne
      cases isOne
  | @proposes task live _ isStream id command risk thoughtSignature =>
    have unjudged : task.judged = none := by
      rw [ChatTask.judged, isStream]
    have same : NoMore (app.view tabId).tasks ((app.view tabId).tasks.map task.emitted)
        (app.view tabId).stirring (app.view tabId).stirring := by
      constructor
      · intro command
        rw [onTheWay, filterMap_emitted unjudged, onTheWay]
      · rw [Assistant.unattended, filterMap_emitted unjudged, Assistant.unattended]
    exact counted.kept (same.say rfl) rfl rfl
  | @allows task live command risk thoughtSignature isJudge id =>
    have judged : task.judged = some command := by
      rw [ChatTask.judged, isJudge]
    exact counted.kept (noMore_allows live judged rfl) rfl rfl
  | @polled task live toolId isPoll id output =>
    exact counted.kept ((noMore_of_sublist filter_sublist (Sublist.refl _)).say rfl) rfl
      rfl
  | @granted index envelope found own command risk thoughtSignature isProposed standing isTab gate
      sender =>
    obtain ⟨counts, few, once, apart⟩ := counted
    obtain ⟨allowed, simple, below⟩ := allowed_of_autoExec gate
    have alone : unattended (app.view tabId).tasks (app.view tabId).stirring = 0 := by
      have judged := oneByOne envelope found standing (by rw [own]; exact isTab)
      rw [isProposed, own] at judged
      change LetThroughAlone app tabId standing command risk at judged
      rw [LetThroughAlone, gate] at judged
      exact judged
    have less : NoMore (app.view tabId).tasks (app.view tabId).tasks (app.view tabId).stirring
        ((app.erase index).view tabId).stirring :=
      noMore_of_sublist (Sublist.refl _) (erase_sublist index)
    refine ⟨counts, ?_, once, fun one isOne name off => ?_⟩
    · have room := (counts standing isTab).room below
      have onWay := less.unattended
      show (period (app.view tabId).log).countP Written.unattended +
        Assistant.unattended (app.view tabId).tasks (_ ++ [_]) ≤ _
      rw [unattended_say]
      refine (Nat.add_le_add_left (Nat.add_le_add_left (Bool.toNat_le _) _) _).trans ?_
      omega
    · change one ∈ app.standing tabId at isOne
      have room := apart one isOne name off
      rw [isTab] at isOne
      cases isOne
      have listed : lists standing.granted command = true := by
        rw [lists, Bool.and_eq_true, Bool.not_eq_true']
        exact ⟨allowed, simple⟩
      have other : command ≠ name := by
        rintro rfl
        cases off.symm.trans listed
      have fewer := less.count name
      show (unlisted (period (app.view tabId).log)).count name +
        (onTheWay (app.view tabId).tasks (_ ++ [_])).count name ≤ 1
      rw [count_say]
      change _ + (_ + [command].count name) ≤ 1
      rw [count_singleton, if_neg (by simpa using other)]
      omega
  | @judges index envelope found own command risk thoughtSignature isProposed standing isTab gate
      id =>
    obtain ⟨counts, few, once, apart⟩ := counted
    have judged := judged_of_judge gate
    obtain ⟨alone, afresh⟩ : unattended (app.untracked tabId) (app.view tabId).stirring = 0 ∧
        command ∉ onTheWay (app.untracked tabId) (app.view tabId).stirring := by
      have through := oneByOne envelope found standing (by rw [own]; exact isTab)
      rw [isProposed, own] at through
      change LetThroughAlone app tabId standing command risk at through
      rw [LetThroughAlone, gate] at through
      exact through
    have less : NoMore (app.untracked tabId) (app.untracked tabId) (app.view tabId).stirring
        ((app.erase index).view tabId).stirring :=
      noMore_of_sublist (Sublist.refl _) (erase_sublist index)
    refine ⟨counts, ?_, once, fun one isOne name off => ?_⟩
    · have room := (counts standing isTab).room judged.below
      have onWay := less.unattended
      show (period (app.view tabId).log).countP Written.unattended +
        Assistant.unattended (_ ++ [_]) ((app.erase index).view tabId).stirring ≤ _
      rw [unattended_start]
      change _ + (_ + 1) ≤ _
      omega
    · change one ∈ app.standing tabId at isOne
      have room := apart one isOne name off
      show (unlisted (period (app.view tabId).log)).count name +
        (onTheWay (_ ++ [_]) ((app.erase index).view tabId).stirring).count name ≤ 1
      rw [count_start]
      change _ + (_ + [command].count name) ≤ 1
      rw [count_singleton]
      split
      · -- The command has neither run since the user took control nor is it on its way.
        rename_i same
        rw [← eq_of_beq same] at room ⊢
        have small : standing.streak ≤ 50 :=
          (not_le.mp (of_decide_eq_false judged.below)).le.trans (by decide)
        have unwritten := (counts standing isTab).count_unlisted small judged.first
        have fewer := less.count command
        rw [count_eq_zero.mpr afresh] at fewer
        omega
      · have fewer := (untracked index).count name
        omega
  | @types index envelope found own command risk thoughtSignature isExec standing isTab id toolId =>
    have taken := stirring_erase found own (by rw [Envelope.stirs, isExec]; rfl)
    have exec : envelope.exec = some command := by
      rw [Envelope.exec, isExec]
      rfl
    have less : NoMore (app.view tabId).tasks
        (app.untracked tabId ++ [⟨id, tabId, envelope.origin, .poll toolId⟩])
        ((app.erase index).view tabId).stirring ((app.erase index).view tabId).stirring :=
      (noMore_of_sublist (untracked_sublist app tabId) (Sublist.refl _)).start rfl
    have named : Written.listed ⟨tabId, standing.pane, standing.host, command, risk,
        envelope.origin, standing.mode, standing.granted.contains (firstToken command)⟩ =
          lists standing.granted command := rfl
    refine counted.write isTab named (fun name => ?_) ?_
    · rw [count_taken taken, exec]
      exact Nat.add_le_add_right (less.count name) _
    · have unasked : envelope.unattended = decide (envelope.origin.way ≠ .approved) := by
        rw [Envelope.unattended, exec]
        exact Bool.true_and _
      rw [unattended_taken taken, unasked]
      exact Nat.add_le_add_right less.unattended _
  | @misses index envelope found own command risk thoughtSignature isExec standing isTab =>
    refine counted.less (noMore_of_sublist (Sublist.refl _) (erase_sublist index)) (.inl rfl)
      fun one isOne => ?_
    cases isOne
    refine ⟨(counted.counts standing isTab).count (Nat.le_succ _) fun _ member => .inl member,
      standing, isTab, rfl⟩
  | @continues index envelope found own toolId output isResult standing isTab id =>
    exact counted.kept ((untracked index).start rfl) rfl rfl
  | @sends inFront standing isTab input id =>
    refine counted.less ((noMore_of_sublist (untracked_sublist app tabId)
      (Sublist.refl _)).start rfl) (.inr rfl) fun one isOne => ?_
    cases isOne
    exact ⟨standing.counts_resetGuard, standing, isTab, rfl⟩
  | @retries inFront standing isTab id =>
    exact counted.kept ((noMore_of_sublist (untracked_sublist app tabId)
      (Sublist.refl _)).start rfl) rfl rfl
  | @approves inFront standing other isTab gesture command approved id thoughtSignature =>
    obtain ⟨counts, few, once, apart⟩ := counted
    have reset : period (.gestured tabId standing.host gesture :: (app.view tabId).log) = [] := by
      rcases approved with ⟨rfl, _⟩ | ⟨rfl, _⟩ <;> rfl
    -- Off the list the command is not on its way yet.
    have names : (∀ name ∈ standing.granted, name ∈ other.granted) ∧
        (lists other.granted command = true ∨
          command ∉ onTheWay (app.view tabId).tasks (app.view tabId).stirring) := by
      have alone := oneByOne tabId inFront standing isTab
      rcases approved with ⟨rfl, rfl⟩ | ⟨rfl, granted, grown, rfl⟩
      · exact ⟨fun _ known => known, alone⟩
      · refine ⟨?_, alone.imp_left fun simple => ?_⟩
        · rcases grown with ⟨rfl, _⟩ | rfl
          · exact fun _ known => known
          · exact fun _ known => mem_append_left _ known
        · rw [lists, Bool.and_eq_true, simple.2]
          refine ⟨?_, rfl⟩
          rcases grown with ⟨rfl, none | known⟩ | rfl
          · exact absurd none simple.1
          · exact known
          · exact contains_iff_mem.mpr (mem_append_right _ mem_cons_self)
    have afresh : other.Counts [] := by
      rcases approved with ⟨_, rfl⟩ | ⟨_, _, _, rfl⟩
      · exact standing.counts_resetGuard
      · exact ⟨Nat.le_refl _, Nat.le_refl _, fun _ _ member => absurd member not_mem_nil⟩
    refine ⟨fun one isOne => ?_, ?_, ?_, fun one isOne name off => ?_⟩
    · cases isOne
      show other.Counts (period _)
      rw [reset]
      exact afresh
    · show (period _).countP _ + Assistant.unattended (app.view tabId).tasks (_ ++ [_]) ≤ _
      rw [reset, unattended_say]
      exact (Nat.zero_add _).le.trans ((Nat.le_add_left _ _).trans few)
    · show (unlisted (period _)).Nodup
      rw [reset]
      exact nodup_nil
    · cases isOne
      show (unlisted (period _)).count name +
        (onTheWay (app.view tabId).tasks (_ ++ [_])).count name ≤ 1
      rw [reset, count_say]
      change 0 + (_ + [command].count name) ≤ 1
      rw [count_singleton]
      split
      · rename_i same
        rw [← eq_of_beq same] at off ⊢
        rcases names.2 with listed | unheard
        · cases off.symm.trans listed
        · rw [count_eq_zero.mpr unheard]
      · have before : lists standing.granted name = false := by
          by_contra listed
          rw [Bool.not_eq_false] at listed
          cases off.symm.trans (lists_mono names.1 listed)
        have room := apart standing isTab name before
        omega
  | @denies inFront standing isTab command =>
    exact counted.kept (noMore_of_sublist (Sublist.refl _) (Sublist.refl _)) rfl rfl
  | @halts inFront standing other isTab gesture halted =>
    have less := noMore_of_sublist (untracked_sublist app tabId)
      (Sublist.refl (app.view tabId).stirring)
    rcases halted with ⟨rfl, rfl⟩ | ⟨rfl, rfl⟩
    · exact counted.kept less rfl isTab.symm
    · refine counted.less less (.inr rfl) fun one isOne => ?_
      cases isOne
      exact ⟨standing.counts_resetGuard, standing, isTab, rfl⟩
  | @sets inFront standing isTab mode =>
    refine counted.less (noMore_of_sublist (Sublist.refl _) (Sublist.refl _)) (.inl rfl)
      fun one isOne => ?_
    cases isOne
    obtain ⟨streak, history, known⟩ := counted.counts standing isTab
    exact ⟨⟨streak, history, known⟩, standing, isTab, rfl⟩
  | @faces action standing isTab moves pane host =>
    refine counted.less (noMore_of_sublist (Sublist.refl _) (Sublist.refl _)) (.inl rfl)
      fun one isOne => ?_
    cases isOne
    obtain ⟨streak, history, known⟩ := counted.counts standing isTab
    exact ⟨⟨streak, history, known⟩, standing, isTab, rfl⟩

end

/-! ### Runs -/

def App.Counted (app : App Host) : Prop := ∀ tabId, (app.view tabId).Counted

theorem counted_initial {app : App Host} (initial : app.Initial) : app.Counted := by
  intro tabId
  obtain ⟨idle, unread, unlogged⟩ := initial.view tabId
  refine ⟨fun standing isStanding => ?_, ?_, ?_, fun _ _ command _ => ?_⟩
  · rw [unlogged]
    obtain ⟨tab, isTab, rfl⟩ := Option.map_eq_some_iff.mp isStanding
    obtain ⟨_, _, nothingRan, _, _⟩ := initial.fresh tabId tab isTab
    refine ⟨Nat.zero_le _, ?_, fun _ _ member => absurd member not_mem_nil⟩
    show tab.chatAutoRunHistory.length ≤ _
    rw [nothingRan]
    exact Nat.zero_le _
  · rw [unlogged, idle, unread]
    exact Nat.zero_le _
  · rw [unlogged]
    exact nodup_nil
  · rw [unlogged, idle, unread]
    exact Nat.zero_le _

/-- Where commands are let through one by one, what runs unattended is bounded in every tab. -/
theorem bounded_of_run {app final : App Host} {actions : List (Action Host)}
    (initial : app.Initial) (oneByOne : assistant.Along OneByOne app actions)
    (ran : assistant.run app actions = some final) (tabId : Nat) :
    Bounded (final.view tabId).log := by
  have kept (app : App Host) (action : Action Host) (next : App Host) (counted : app.Counted)
      (oneByOne : OneByOne app action) (stepped : assistant.step app action = some next) :
      next.Counted :=
    fun tabId => (counted tabId).step oneByOne (tabMove_of_step stepped tabId)
  have counted : final.Counted := Machine.invariant kept (counted_initial initial) oneByOne ran
  exact ⟨(Nat.le_add_right _ _).trans (counted tabId).few, (counted tabId).once,
    (vetted_of_run initial ran tabId).written⟩

/-! ### Two runs -/

instance (app : App Host) (tabId : Nat) (standing : Standing Host) (command risk : String) :
    Decidable (LetThroughAlone app tabId standing command risk) :=
  match gate : classifyToolGate (standing.gateInput command risk) with
  | .autoExec => decidable_of_iff
      (unattended (app.view tabId).tasks (app.view tabId).stirring = 0) (by
        rw [LetThroughAlone, gate])
  | .judge => decidable_of_iff
      (unattended (app.untracked tabId) (app.view tabId).stirring = 0 ∧
        command ∉ onTheWay (app.untracked tabId) (app.view tabId).stirring) (by
          rw [LetThroughAlone, gate])
  | .confirm => isTrue (by rw [LetThroughAlone, gate]; trivial)
  | .prompt => isTrue (by rw [LetThroughAlone, gate]; trivial)

instance (app : App Host) (tabId : Nat) (standing : Standing Host) : ∀ message : AiMessage,
    Decidable (match message with
      | .chatToolProposed command risk _ => LetThroughAlone app tabId standing command risk
      | _ => True)
  | .chatToolProposed command risk _ =>
    inferInstanceAs (Decidable (LetThroughAlone app tabId standing command risk))
  | .chatStreamChunk _ | .chatStreamReasoning _ | .chatStreamDone | .chatError _
  | .chatToolGuardBlocked _ _ | .chatToolExec _ _ _ | .chatToolResult _ _ => isTrue trivial

instance (app : App Host) : ∀ action, Decidable (OneByOne app action)
  | .deliver index => inferInstanceAs (Decidable
      (∀ envelope ∈ app.mail[index]?, ∀ standing ∈ app.standing envelope.tabId,
        match envelope.message with
        | .chatToolProposed command risk _ =>
          LetThroughAlone app envelope.tabId standing command risk
        | _ => True))
  | .gesture (.chatToolApprove command) => inferInstanceAs (Decidable
      (∀ tabId ∈ app.activeTab, ∀ standing ∈ app.standing tabId,
        lists standing.granted command = true ∨
          command ∉ onTheWay (app.view tabId).tasks (app.view tabId).stirring))
  | .gesture (.chatToolApproveAlways command) => inferInstanceAs (Decidable
      (∀ tabId ∈ app.activeTab, ∀ standing ∈ app.standing tabId,
        (firstToken command ≠ "" ∧ hasShellChaining command = false) ∨
          command ∉ onTheWay (app.view tabId).tasks (app.view tabId).stirring))
  | .gesture (.sendChat _) | .gesture .chatRetry | .gesture (.chatToolDeny _)
  | .gesture .chatResetConversation | .gesture (.chatModeChanged _) | .gesture .chatStop =>
    isTrue fun _ _ _ _ => trivial
  | .stream _ _ | .verdict _ _ | .output _ _ | .switchTab _ | .closeTab _ | .focusPane _ _
  | .splitPane _ _ _ | .closePane _ _ _ | .session _ _ _ | .hideChat | .toggleAiEnabled =>
    isTrue trivial

/-- A stream proposes `ls` and fails; the proposal and the error are handled, and the user retries.
What was let through before waits. -/
def retried (stream waiting : Nat) : List (Action String) :=
  [.stream stream (.toolUse "ls" "safe" none), .deliver waiting, .stream stream (.error "timeout"),
    .deliver (waiting + 1), .gesture .chatRetry]

/-- Thirteen commands are let through before the first of them is run. -/
def overlapping : List (Action String) :=
  [.gesture (.chatToolApproveAlways "ls"), .deliver 0, .gesture (.sendChat "what is here?")] ++
    (List.range 13).flatMap (fun round => retried (3 + 2 * round) round) ++
    List.replicate 13 (.deliver 0)

/-- More ran unattended than the cap. -/
theorem not_bounded_overlapping : ¬ ∀ final, assistant.run onePane overlapping = some final →
    Bounded (final.view 0).log := by
  intro always
  have exceeds : (assistant.run onePane overlapping).any (fun final =>
      chatAutoRunStreakMax < (period (final.view 0).log).countP Written.unattended) = true := by
    decide +kernel
  obtain ⟨final, ran, exceeds⟩ := (Option.any_eq_true _ _).mp exceeds
  exact absurd (always final ran).few (not_le.mpr (of_decide_eq_true exceeds))

/-- A granted command and a judged one, each run before the next is proposed. -/
def inTurn : List (Action String) :=
  [.gesture (.chatToolApproveAlways "ls"), .deliver 0, .gesture (.sendChat "what is here?"),
    .stream 3 (.toolUse "ls -l" "safe" none), .deliver 0, .deliver 0, .output 6 "a b",
    .deliver 0, .stream 7 (.toolUse "cat a" "safe" none), .deliver 0, .verdict 8 true, .deliver 0]

theorem bounded_inTurn : ∃ final, assistant.run onePane inTurn = some final ∧
    Bounded (final.view 0).log ∧ (period (final.view 0).log).countP Written.unattended = 2 := by
  have ends : (assistant.run onePane inTurn).any (fun final =>
      (period (final.view 0).log).countP Written.unattended = 2) = true := by
    decide +kernel
  obtain ⟨final, ran, two⟩ := (Option.any_eq_true _ _).mp ends
  exact ⟨final, ran, bounded_of_run (App.initial_opened _ _) (by decide +kernel) ran 0,
    of_decide_eq_true two⟩

end Oryxis.Assistant

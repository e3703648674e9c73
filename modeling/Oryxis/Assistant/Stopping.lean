/-
This file proves when Stop stops the assistant.

Stop, a reset and a switch to Ask mode are to keep commands off the tab's terminal until
the user sends, retries or approves there; in Ask mode a command whose name was granted
may still run. Stop aborts the one task the tab has the handle of. A command that was
let through before is a message already, and no task's; and a task whose handle was lost
to another's end goes on. A switch to Ask aborts nothing, so a judge at work is not
stopped by it. Where nothing of the tab is under way but the task it has the handle of,
or, in Ask mode, nothing but what can run granted commands only, a stopped tab is quiet.
-/

import Oryxis.Assistant.Views

namespace Oryxis.Assistant

open Library

variable {Host : Type*}

/-! ### What should hold -/

/-- The user stops what goes on in a tab. -/
def Gesture.stops : Gesture → Bool
  | .chatStop | .chatResetConversation | .chatModeChanged .ask => true
  | .chatModeChanged .auto | .chatModeChanged .plan | .sendChat _ | .chatRetry
  | .chatToolApprove _ | .chatToolApproveAlways _ | .chatToolDeny _ => false

/-- The user has the assistant go on. -/
def Gesture.resumes : Gesture → Bool
  | .sendChat _ | .chatRetry | .chatToolApprove _ | .chatToolApproveAlways _ => true
  | .chatStop | .chatResetConversation | .chatModeChanged _ | .chatToolDeny _ => false

/-- The tab was stopped last, by its log. -/
def stopped : List (Event Host) → Bool
  | [] => false
  | .wrote _ :: earlier => stopped earlier
  | .gestured _ _ gesture :: earlier => gesture.stops || (!gesture.resumes && stopped earlier)

/-- No command was written in a stopped tab, but in Ask mode one whose name was granted. -/
def StopsObeyed : List (Event Host) → Prop
  | [] => True
  | .wrote written :: earlier =>
    (stopped earlier = true → written.mode = .ask ∧ written.isGranted = true) ∧ StopsObeyed earlier
  | .gestured _ _ _ :: earlier => StopsObeyed earlier

/-! ### The condition -/

/-- No judge is at work, and no command is on its way but those of these names. -/
structure OnlyGranted (tasks : List ChatTask) (stirring : List Envelope) (granted : List String) :
    Prop where
  unjudged : ∀ task ∈ tasks, task.judged = none
  named : ∀ envelope ∈ stirring, ∀ command ∈ envelope.message.exec,
    granted.contains (firstToken command) = true

/-- Nothing is under way, or in Ask mode nothing that can run more than granted commands. -/
def Calm (tasks : List ChatTask) (stirring : List Envelope) (mode : ChatMode)
    (granted : List String) : Prop :=
  (tasks = [] ∧ stirring = []) ∨ (mode = .ask ∧ OnlyGranted tasks stirring granted)

/-- The tab is calm when the user stops it, but for the task it has the handle of, and when the
user switches it to Ask, or a stopped tab to another mode. -/
def Heeded (app : App Host) : Action Host → Prop
  | .gesture gesture => ∀ tabId ∈ app.activeTab, ∀ standing ∈ app.standing tabId,
    match gesture with
    | .chatStop | .chatResetConversation =>
      Calm (app.untracked tabId) (app.view tabId).stirring standing.mode standing.granted
    | .chatModeChanged mode => mode = .ask ∨ stopped (app.view tabId).log = true →
      Calm (app.view tabId).tasks (app.view tabId).stirring mode standing.granted
    | _ => True
  | _ => True

/-! ### What a move keeps -/

variable {tasks : List ChatTask} {stirring : List Envelope} {granted : List String}

variable {others : List ChatTask} {messages : List Envelope}

theorem OnlyGranted.mono (only : OnlyGranted tasks stirring granted)
    (fewer : ∀ task ∈ others, task ∈ tasks) (less : ∀ envelope ∈ messages, envelope ∈ stirring) :
    OnlyGranted others messages granted :=
  ⟨fun task member => only.unjudged task (fewer task member),
    fun envelope member => only.named envelope (less envelope member)⟩

theorem OnlyGranted.say (only : OnlyGranted tasks stirring granted) {envelope : Envelope}
    (named : ∀ command ∈ envelope.message.exec, granted.contains (firstToken command) = true) :
    OnlyGranted tasks (stirring ++ [envelope]) granted := by
  refine ⟨only.unjudged, fun one member => ?_⟩
  rcases List.mem_append.mp member with old | new
  · exact only.named one old
  · rw [List.mem_singleton.mp new]
    exact named

theorem OnlyGranted.start (only : OnlyGranted tasks stirring granted) {task : ChatTask}
    (unjudged : task.judged = none) : OnlyGranted (tasks ++ [task]) stirring granted := by
  refine ⟨fun one member => ?_, only.named⟩
  rcases List.mem_append.mp member with old | new
  · exact only.unjudged one old
  · rw [List.mem_singleton.mp new]
    exact unjudged

variable {mode : ChatMode}

theorem Calm.mono (calm : Calm tasks stirring mode granted) (fewer : others.Sublist tasks)
    (less : messages.Sublist stirring) :
    Calm others messages mode granted := by
  rcases calm with ⟨idle, silent⟩ | ⟨isAsk, only⟩
  · subst idle silent
    exact .inl ⟨List.sublist_nil.mp fewer, List.sublist_nil.mp less⟩
  · exact .inr ⟨isAsk, only.mono (fun _ member => fewer.subset member) fun _ member => less.subset member⟩

/-- Where something is under way in a calm tab, it is in Ask mode. -/
theorem Calm.ask (calm : Calm tasks stirring mode granted)
    (busy : (∃ task, task ∈ tasks) ∨ ∃ envelope, envelope ∈ stirring) :
    mode = .ask ∧ OnlyGranted tasks stirring granted := by
  rcases calm with ⟨idle, silent⟩ | asking
  · subst idle silent
    rcases busy with ⟨_, member⟩ | ⟨_, member⟩ <;> cases member
  · exact asking

/-- A tab of whose past every command that was written obeyed, and that is calm when stopped. -/
structure View.Quiet (view : View Host) : Prop where
  obeyed : StopsObeyed view.log
  calm : stopped view.log = true → ∀ standing ∈ view.standing,
    Calm view.tasks view.stirring standing.mode standing.granted

section

variable {app : App Host} {tabId : Nat}

variable {view : View Host}

/-- A move after which the user has the assistant go on. -/
theorem View.Quiet.resumed (quiet : (app.view tabId).Quiet) {host : Host} {gesture : Gesture}
    (resumes : gesture.resumes = true)
    (log : view.log = .gestured tabId host gesture :: (app.view tabId).log) : view.Quiet := by
  have goes : stopped view.log = false := by
    rw [log]
    cases gesture <;> first | rfl | cases resumes
  refine ⟨?_, fun isStopped => ?_⟩
  · rw [log]
    exact quiet.obeyed
  · rw [goes] at isStopped
    cases isStopped

/-- What is said in a tab that is under way. -/
theorem View.Quiet.say (quiet : (app.view tabId).Quiet) (log : view.log = (app.view tabId).log)
    (standing : view.standing = app.standing tabId)
    (busy : (∃ task, task ∈ (app.view tabId).tasks) ∨
      ∃ envelope, envelope ∈ (app.view tabId).stirring)
    (only : ∀ one ∈ app.standing tabId, one.mode = .ask →
      OnlyGranted (app.view tabId).tasks (app.view tabId).stirring one.granted →
        OnlyGranted view.tasks view.stirring one.granted) : view.Quiet := by
  refine ⟨log ▸ quiet.obeyed, fun isStopped one isOne => ?_⟩
  rw [log] at isStopped
  rw [standing] at isOne
  obtain ⟨isAsk, before⟩ := (quiet.calm isStopped one isOne).ask busy
  exact .inr ⟨isAsk, only one isOne isAsk before⟩

theorem View.Quiet.step {action : Action Host} (quiet : (app.view tabId).Quiet)
    (heeded : Heeded app action) (move : TabMove app tabId action view) : view.Quiet := by
  cases move with
  | idle standing tasks stirring log =>
    refine ⟨log ▸ quiet.obeyed, fun isStopped one isOne => ?_⟩
    rw [log] at isStopped
    rcases standing with same | gone
    · rw [same] at isOne
      exact (quiet.calm isStopped one isOne).mono tasks stirring
    · rw [gone] at isOne
      cases isOne
  | @proposes task live _ isStream id command risk thoughtSignature =>
    refine quiet.say rfl rfl (.inl ⟨task, live⟩) fun one _ _ only => ?_
    have kept : OnlyGranted ((app.view tabId).tasks.map task.emitted) (app.view tabId).stirring
        one.granted := by
      refine ⟨fun later member => ?_, only.named⟩
      obtain ⟨earlier, isLive, rfl⟩ := List.mem_map.mp member
      unfold ChatTask.emitted
      split
      · rfl
      · exact only.unjudged earlier isLive
    exact kept.say fun _ none => absurd none (Option.not_mem_none _)
  | @allows task live command risk thoughtSignature isJudge id =>
    refine quiet.say rfl rfl (.inl ⟨task, live⟩) fun one _ _ only => ?_
    have unjudged := only.unjudged task live
    rw [ChatTask.judged, isJudge] at unjudged
    cases unjudged
  | @polled task live toolId isPoll id output =>
    refine quiet.say rfl rfl (.inl ⟨task, live⟩) fun one _ _ only => ?_
    exact (only.mono (fun _ member => List.mem_of_mem_filter member) fun _ member => member).say
      fun _ none => absurd none (Option.not_mem_none _)
  | @granted index envelope found own command risk thoughtSignature isProposed standing isTab gate
      sender =>
    have member := mem_of_found found own (by rw [Envelope.stirs, isProposed]; rfl)
    refine quiet.say rfl rfl (.inr ⟨envelope, member⟩) fun one isOne _ only => ?_
    rw [isTab] at isOne
    cases isOne
    refine (only.mono (fun _ member => member) fun _ member =>
      (erase_sublist index).subset member).say fun name isName => ?_
    cases isName
    exact (allowed_of_autoExec gate).1
  | @judges index envelope found own command risk thoughtSignature isProposed standing isTab gate
      id =>
    have member := mem_of_found found own (by rw [Envelope.stirs, isProposed]; rfl)
    refine quiet.say rfl rfl (.inr ⟨envelope, member⟩) fun one isOne isAsk only => ?_
    rw [isTab] at isOne
    cases isOne
    exact absurd isAsk (judged_of_judge gate).notAsk
  | @types index envelope found own command risk thoughtSignature isExec standing isTab id toolId =>
    have member := mem_of_found found own (by rw [Envelope.stirs, isExec]; rfl)
    have asking (isStopped : stopped (app.view tabId).log = true) :=
      (quiet.calm isStopped standing isTab).ask (.inr ⟨envelope, member⟩)
    refine ⟨⟨fun isStopped => ?_, quiet.obeyed⟩, fun isStopped one isOne => ?_⟩
    · obtain ⟨isAsk, only⟩ := asking isStopped
      refine ⟨isAsk, only.named envelope member command ?_⟩
      rw [isExec]
      rfl
    · obtain ⟨isAsk, only⟩ := asking isStopped
      cases isOne
      exact .inr ⟨isAsk, (only.mono (fun _ member => (untracked_sublist app tabId).subset member)
        fun _ member => (erase_sublist index).subset member).start rfl⟩
  | @misses index envelope found own command risk thoughtSignature isExec standing isTab =>
    refine ⟨quiet.obeyed, fun isStopped one isOne => ?_⟩
    cases isOne
    exact (quiet.calm isStopped standing isTab).mono (List.Sublist.refl _) (erase_sublist index)
  | @continues index envelope found own toolId output isResult standing isTab id =>
    have member := mem_of_found found own (by rw [Envelope.stirs, isResult]; rfl)
    refine quiet.say rfl rfl (.inr ⟨envelope, member⟩) fun one isOne isAsk only => ?_
    exact (only.mono (fun _ member => (untracked_sublist app tabId).subset member)
      fun _ member => (erase_sublist index).subset member).start rfl
  | sends => exact quiet.resumed rfl rfl
  | retries => exact quiet.resumed rfl rfl
  | @approves inFront standing other isTab gesture command approved id thoughtSignature =>
    rcases approved with ⟨rfl, _⟩ | ⟨rfl, _⟩
    · exact quiet.resumed rfl rfl
    · exact quiet.resumed rfl rfl
  | @denies inFront standing isTab command => exact ⟨quiet.obeyed, quiet.calm⟩
  | @halts inFront standing other isTab gesture halted =>
    rcases halted with ⟨rfl, rfl⟩ | ⟨rfl, rfl⟩
    · refine ⟨quiet.obeyed, fun _ one isOne => ?_⟩
      cases isOne
      exact heeded tabId inFront _ isTab
    · refine ⟨quiet.obeyed, fun _ one isOne => ?_⟩
      cases isOne
      exact heeded tabId inFront standing isTab
  | @sets inFront standing isTab mode =>
    refine ⟨quiet.obeyed, fun isStopped one isOne => ?_⟩
    cases isOne
    refine heeded tabId inFront standing isTab ?_
    cases mode with
    | ask => exact .inl rfl
    | auto | plan => exact .inr isStopped
  | @faces action standing isTab moves pane host =>
    refine ⟨quiet.obeyed, fun isStopped one isOne => ?_⟩
    cases isOne
    exact quiet.calm isStopped standing isTab

end

/-! ### Runs -/

def App.Quiet (app : App Host) : Prop := ∀ tabId, (app.view tabId).Quiet

theorem quiet_initial {app : App Host} (initial : app.Initial) : app.Quiet := by
  intro tabId
  obtain ⟨_, _, unlogged⟩ := initial.view tabId
  refine ⟨?_, fun isStopped => ?_⟩
  · rw [unlogged]
    trivial
  · rw [unlogged] at isStopped
    cases isStopped

/-- Where every tab is calm when the user stops it, nothing is written in a stopped tab but, in Ask
mode, a command whose name was granted. -/
theorem stopsObeyed_of_run {app final : App Host} {actions : List (Action Host)}
    (initial : app.Initial) (heeded : assistant.Along Heeded app actions)
    (ran : assistant.run app actions = some final) (tabId : Nat) :
    StopsObeyed (final.view tabId).log := by
  have kept (app : App Host) (action : Action Host) (next : App Host) (quiet : app.Quiet)
      (heeded : Heeded app action) (stepped : assistant.step app action = some next) : next.Quiet :=
    fun tabId => (quiet tabId).step heeded (tabMove_of_step stepped tabId)
  have quiet : final.Quiet := Machine.invariant kept (quiet_initial initial) heeded ran
  exact (quiet tabId).obeyed

/-! ### Two runs -/

instance (tasks : List ChatTask) (stirring : List Envelope) (granted : List String) :
    Decidable (OnlyGranted tasks stirring granted) :=
  decidable_of_iff ((∀ task ∈ tasks, task.judged = none) ∧ ∀ envelope ∈ stirring,
      ∀ command ∈ envelope.message.exec, granted.contains (firstToken command) = true)
    ⟨fun ⟨unjudged, named⟩ => ⟨unjudged, named⟩, fun ⟨unjudged, named⟩ => ⟨unjudged, named⟩⟩

instance (tasks : List ChatTask) (stirring : List Envelope) (mode : ChatMode)
    (granted : List String) : Decidable (Calm tasks stirring mode granted) :=
  inferInstanceAs (Decidable (_ ∨ _))

instance (app : App Host) : ∀ action, Decidable (Heeded app action)
  | .gesture .chatStop | .gesture .chatResetConversation => inferInstanceAs (Decidable
      (∀ tabId ∈ app.activeTab, ∀ standing ∈ app.standing tabId,
        Calm (app.untracked tabId) (app.view tabId).stirring standing.mode standing.granted))
  | .gesture (.chatModeChanged mode) => inferInstanceAs (Decidable
      (∀ tabId ∈ app.activeTab, ∀ standing ∈ app.standing tabId,
        mode = .ask ∨ stopped (app.view tabId).log = true →
          Calm (app.view tabId).tasks (app.view tabId).stirring mode standing.granted))
  | .gesture (.sendChat _) | .gesture .chatRetry | .gesture (.chatToolApprove _)
  | .gesture (.chatToolApproveAlways _) | .gesture (.chatToolDeny _) =>
    isTrue fun _ _ _ _ => trivial
  | .stream _ _ | .verdict _ _ | .output _ _ | .deliver _ | .switchTab _ | .closeTab _
  | .focusPane _ _ | .splitPane _ _ _ | .closePane _ _ _ | .session _ _ _ | .hideChat
  | .toggleAiEnabled => isTrue trivial

/-- A granted command is let through, and its message is handled after the user's Stop. -/
def stoppedLate : List (Action String) :=
  [.gesture (.chatToolApproveAlways "ls"), .deliver 0, .gesture .chatStop,
    .gesture (.sendChat "and now?"), .stream 3 (.toolUse "ls -l" "safe" none), .deliver 0,
    .gesture .chatStop, .deliver 0]

/-- The last of a tab's events is a command, written where it should be not. -/
def wroteLate : List (Event Host) → Bool
  | .wrote written :: earlier => stopped earlier && written.mode ≠ .ask
  | _ => false

/-- The command is written in the tab that was stopped, which is not in Ask mode. -/
theorem not_stopsObeyed_stoppedLate :
    ¬ ∀ final, assistant.run onePane stoppedLate = some final →
      StopsObeyed (final.view 0).log := by
  intro always
  have written : (assistant.run onePane stoppedLate).any (fun final =>
      wroteLate (final.view 0).log) = true := by
    decide +kernel
  obtain ⟨final, ran, late⟩ := (Option.any_eq_true _ _).mp written
  have obeyed := always final ran
  unfold wroteLate at late
  split at late
  · rename_i written earlier isLog
    rw [isLog] at obeyed
    rw [Bool.and_eq_true, decide_eq_true_eq] at late
    exact late.2 (obeyed.1 late.1).1
  · cases late

/-- The user stops a judge at work, and asks once more. -/
def stoppedInTime : List (Action String) :=
  [.gesture (.sendChat "disk?"), .stream 0 (.toolUse "df" "safe" none), .deliver 0,
    .gesture .chatStop, .gesture (.sendChat "yes, do"), .stream 2 (.toolUse "df" "safe" none),
    .deliver 0, .verdict 3 true, .deliver 0, .gesture .chatStop]

theorem stopsObeyed_stoppedInTime : ∃ final,
    assistant.run onePane stoppedInTime = some final ∧ StopsObeyed (final.view 0).log ∧
      stopped (final.view 0).log = true ∧ final.log.length = 5 := by
  have ends : (assistant.run onePane stoppedInTime).any (fun final =>
      stopped (final.view 0).log && final.log.length = 5) = true := by
    decide +kernel
  obtain ⟨final, ran, facts⟩ := (Option.any_eq_true _ _).mp ends
  rw [Bool.and_eq_true, decide_eq_true_eq] at facts
  exact ⟨final, ran, stopsObeyed_of_run (App.initial_opened _ _) (by decide +kernel) ran 0, facts⟩

end Oryxis.Assistant

/-
This file is what an action does to one tab: to its standing, the tasks and the messages
that are its own, and its part of the log. What is done in another tab does nothing here,
so what holds of a tab is proved of its own moves alone.
-/

import Mathlib.Data.List.Perm.Basic
import Oryxis.Assistant.Outline

namespace Oryxis.Assistant

open Library List

variable {Host : Type*}

/-! ### A tab on its own -/

def Event.tabId : Event Host → Nat
  | .wrote written => written.tabId
  | .gestured tabId _ _ => tabId

/-- One tab: its standing, and the tasks, the messages and the events that are its own. -/
structure View (Host : Type*) where
  standing : Option (Standing Host)
  tasks : List ChatTask
  stirring : List Envelope
  log : List (Event Host)

def Outline.view (outline : Outline Host) (tabId : Nat) : View Host where
  standing := outline.standing tabId
  tasks := outline.tasks.filter (·.tabId = tabId)
  stirring := outline.stirring.filter (·.tabId = tabId)
  log := outline.log.filter (·.tabId = tabId)

namespace App

def view (app : App Host) (tabId : Nat) : View Host := app.outline.view tabId

/-- The tab's tasks but the one it has the handle of. -/
def untracked (app : App Host) (tabId : Nat) : List ChatTask :=
  (app.withoutTracked tabId).filter (·.tabId = tabId)

end App

/-- The command a judge is asked about. -/
def ChatTask.judged (task : ChatTask) : Option String :=
  match task.work with
  | .judge command _ _ => some command
  | .stream _ | .poll _ => none

/-- The command a message has the terminal run. -/
def AiMessage.exec : AiMessage → Option String
  | .chatToolExec command _ _ => some command
  | .chatStreamChunk _ | .chatStreamReasoning _ | .chatStreamDone | .chatError _
  | .chatToolProposed _ _ _ | .chatToolGuardBlocked _ _ | .chatToolResult _ _ => none

/-- How an action moves one tab. -/
inductive TabMove (app : App Host) (tabId : Nat) : Action Host → View Host → Prop
  | idle {action : Action Host} {view : View Host}
      (standing : view.standing = app.standing tabId ∨ view.standing = none)
      (tasks : view.tasks.Sublist (app.view tabId).tasks)
      (stirring : view.stirring.Sublist (app.view tabId).stirring)
      (log : view.log = (app.view tabId).log) : TabMove app tabId action view
  | proposes {task : ChatTask} (live : task ∈ (app.view tabId).tasks) {toolEmitted : Bool}
      (isStream : task.work = .stream toolEmitted) (id : Nat) (command risk : String)
      (thoughtSignature : Option String) :
      TabMove app tabId (.stream id (.toolUse command risk thoughtSignature)) { app.view tabId with
        tasks := (app.view tabId).tasks.map task.emitted
        stirring := (app.view tabId).stirring ++ [⟨task.id, tabId, task.origin,
          .chatToolProposed command risk thoughtSignature⟩] }
  | allows {task : ChatTask} (live : task ∈ (app.view tabId).tasks) {command risk : String}
      {thoughtSignature : Option String}
      (isJudge : task.work = .judge command risk thoughtSignature) (id : Nat) :
      TabMove app tabId (.verdict id true) { app.view tabId with
        tasks := (app.view tabId).tasks.filter (·.id ≠ task.id)
        stirring := (app.view tabId).stirring ++ [⟨task.id, tabId, task.origin,
          .chatToolExec command risk thoughtSignature⟩] }
  | polled {task : ChatTask} (live : task ∈ (app.view tabId).tasks) {toolId : Nat}
      (isPoll : task.work = .poll toolId) (id : Nat) (output : String) :
      TabMove app tabId (.output id output) { app.view tabId with
        tasks := (app.view tabId).tasks.filter (·.id ≠ task.id)
        stirring := (app.view tabId).stirring ++ [⟨task.id, tabId, task.origin,
          .chatToolResult toolId output⟩] }
  | granted {index : Nat} {envelope : Envelope} (found : app.mail[index]? = some envelope)
      (own : envelope.tabId = tabId) {command risk : String} {thoughtSignature : Option String}
      (isProposed : envelope.message = .chatToolProposed command risk thoughtSignature)
      {standing : Standing Host} (isTab : app.standing tabId = some standing)
      (gate : classifyToolGate (standing.gateInput command risk) = .autoExec)
      (sender : Nat) :
      TabMove app tabId (.deliver index) { app.view tabId with
        stirring := ((app.erase index).view tabId).stirring ++ [⟨sender, tabId, { envelope.origin with way := .granted },
          .chatToolExec command risk thoughtSignature⟩] }
  | judges {index : Nat} {envelope : Envelope} (found : app.mail[index]? = some envelope)
      (own : envelope.tabId = tabId) {command risk : String} {thoughtSignature : Option String}
      (isProposed : envelope.message = .chatToolProposed command risk thoughtSignature)
      {standing : Standing Host} (isTab : app.standing tabId = some standing)
      (gate : classifyToolGate (standing.gateInput command risk) = .judge)
      (id : Nat) :
      TabMove app tabId (.deliver index) { app.view tabId with
        tasks := app.untracked tabId ++ [⟨id, tabId, { envelope.origin with way := .judged },
          .judge command risk thoughtSignature⟩]
        stirring := ((app.erase index).view tabId).stirring }
  | types {index : Nat} {envelope : Envelope} (found : app.mail[index]? = some envelope)
      (own : envelope.tabId = tabId) {command risk : String} {thoughtSignature : Option String}
      (isExec : envelope.message = .chatToolExec command risk thoughtSignature)
      {standing : Standing Host} (isTab : app.standing tabId = some standing)
      (id toolId : Nat) :
      TabMove app tabId (.deliver index) {
        standing := some (standing.count command)
        tasks := app.untracked tabId ++ [⟨id, tabId, envelope.origin, .poll toolId⟩]
        stirring := ((app.erase index).view tabId).stirring
        log := .wrote ⟨tabId, standing.pane, standing.host, command, risk, envelope.origin,
          standing.mode, standing.granted.contains (firstToken command)⟩ :: (app.view tabId).log }
  | misses {index : Nat} {envelope : Envelope} (found : app.mail[index]? = some envelope)
      (own : envelope.tabId = tabId) {command risk : String} {thoughtSignature : Option String}
      (isExec : envelope.message = .chatToolExec command risk thoughtSignature)
      {standing : Standing Host} (isTab : app.standing tabId = some standing) :
      TabMove app tabId (.deliver index) { app.view tabId with
        standing := some (standing.count command)
        stirring := ((app.erase index).view tabId).stirring }
  | continues {index : Nat} {envelope : Envelope} (found : app.mail[index]? = some envelope)
      (own : envelope.tabId = tabId) {toolId : Nat} {output : String}
      (isResult : envelope.message = .chatToolResult toolId output)
      {standing : Standing Host} (isTab : app.standing tabId = some standing)
      (id : Nat) :
      TabMove app tabId (.deliver index) { app.view tabId with
        tasks := app.untracked tabId ++ [⟨id, tabId, ⟨standing.pane, .proposed⟩, .stream false⟩]
        stirring := ((app.erase index).view tabId).stirring }
  | sends (inFront : app.activeTab = some tabId) {standing : Standing Host}
      (isTab : app.standing tabId = some standing) (input : String) (id : Nat) :
      TabMove app tabId (.gesture (.sendChat input)) { app.view tabId with
        standing := some standing.resetGuard
        tasks := app.untracked tabId ++ [⟨id, tabId, ⟨standing.pane, .proposed⟩, .stream false⟩]
        log := .gestured tabId standing.host (.sendChat input) :: (app.view tabId).log }
  | retries (inFront : app.activeTab = some tabId) {standing : Standing Host}
      (isTab : app.standing tabId = some standing) (id : Nat) :
      TabMove app tabId (.gesture .chatRetry) { app.view tabId with
        tasks := app.untracked tabId ++ [⟨id, tabId, ⟨standing.pane, .proposed⟩, .stream false⟩]
        log := .gestured tabId standing.host .chatRetry :: (app.view tabId).log }
  | approves (inFront : app.activeTab = some tabId) {standing other : Standing Host}
      (isTab : app.standing tabId = some standing) {gesture : Gesture} {command : String}
      (approved : gesture = .chatToolApprove command ∧ other = standing.resetGuard ∨
        gesture = .chatToolApproveAlways command ∧ ∃ granted,
          (granted = standing.granted ∧ (firstToken command = "" ∨
              standing.granted.contains (firstToken command) = true) ∨
            granted = standing.granted ++ [firstToken command]) ∧
          other = { standing.resetGuard with granted := granted })
      (id : Nat) (thoughtSignature : Option String) :
      TabMove app tabId (.gesture gesture) { app.view tabId with
        standing := some other
        stirring := (app.view tabId).stirring ++ [⟨id, tabId, ⟨standing.pane, .approved⟩,
          .chatToolExec command "risky" thoughtSignature⟩]
        log := .gestured tabId standing.host gesture :: (app.view tabId).log }
  | denies (inFront : app.activeTab = some tabId) {standing : Standing Host}
      (isTab : app.standing tabId = some standing) (command : String) :
      TabMove app tabId (.gesture (.chatToolDeny command)) { app.view tabId with
        log := .gestured tabId standing.host (.chatToolDeny command) :: (app.view tabId).log }
  | halts (inFront : app.activeTab = some tabId) {standing other : Standing Host}
      (isTab : app.standing tabId = some standing) {gesture : Gesture}
      (halted : gesture = .chatStop ∧ other = standing ∨
        gesture = .chatResetConversation ∧ other = standing.resetGuard) :
      TabMove app tabId (.gesture gesture) { app.view tabId with
        standing := some other
        tasks := app.untracked tabId
        log := .gestured tabId standing.host gesture :: (app.view tabId).log }
  | sets (inFront : app.activeTab = some tabId) {standing : Standing Host}
      (isTab : app.standing tabId = some standing) (mode : ChatMode) :
      TabMove app tabId (.gesture (.chatModeChanged mode)) { app.view tabId with
        standing := some { standing with mode := mode }
        log := .gestured tabId standing.host (.chatModeChanged mode) :: (app.view tabId).log }
  | faces {action : Action Host} {standing : Standing Host}
      (isTab : app.standing tabId = some standing)
      (moves : (∃ pane, action = .focusPane tabId pane) ∨
        (∃ host connected, action = .splitPane tabId host connected) ∨
        ∃ pane sibling, action = .closePane tabId pane sibling)
      (pane : Nat) (host : Host) :
      TabMove app tabId action { app.view tabId with
        standing := some { standing with pane := pane, host := host } }

/-! ### From the whole to one tab -/

section

variable {app : App Host} {tabId : Nat}

variable {α : Type*} {one : α}

theorem filter_append_own (owner : α → Nat) (list : List α) (own : owner one = tabId) :
    (list ++ [one]).filter (owner · = tabId) = list.filter (owner · = tabId) ++ [one] := by
  simp [filter_append, own]

theorem append_other (owner : α → Nat) (list : List α) (other : owner one ≠ tabId) :
    ((list ++ [one]).filter (owner · = tabId)).Sublist (list.filter (owner · = tabId)) := by
  have same : (list ++ [one]).filter (owner · = tabId) = list.filter (owner · = tabId) := by
    simp [filter_append, other]
  rw [same]

/-- A task's mark changes none of what the views go by. -/
theorem tabId_emitted (stream task : ChatTask) : (stream.emitted task).tabId = task.tabId := by
  unfold ChatTask.emitted
  split <;> rfl

theorem filter_map_emitted (stream : ChatTask) (tasks : List ChatTask) :
    (tasks.map stream.emitted).filter (·.tabId = tabId) =
      (tasks.filter (·.tabId = tabId)).map stream.emitted := by
  rw [filter_map]
  congr 2
  funext task
  exact congrArg (fun tab => decide (tab = tabId)) (tabId_emitted stream task)

theorem map_emitted_other {stream : ChatTask} (apart : stream.tabId ≠ tabId)
    (tasks : List ChatTask) :
    ((tasks.map stream.emitted).filter (·.tabId = tabId)).Sublist
      (tasks.filter (·.tabId = tabId)) := by
  have same : (tasks.filter (·.tabId = tabId)).map stream.emitted =
      (tasks.filter (·.tabId = tabId)).map id := by
    refine map_congr_left fun task member => if_neg ?_
    rintro rfl
    exact apart (of_decide_eq_true (mem_filter.mp member).2)
  rw [filter_map_emitted, same, map_id]

theorem tracking_own (id : Nat) (origin : Origin) (work : Work) :
    (app.tracking ⟨id, tabId, origin, work⟩).filter (·.tabId = tabId) =
      app.untracked tabId ++ [⟨id, tabId, origin, work⟩] :=
  filter_append_own ChatTask.tabId _ rfl

variable {other : Nat}

theorem tracking_other (apart : other ≠ tabId) (id : Nat) (origin : Origin) (work : Work) :
    ((app.tracking ⟨id, other, origin, work⟩).filter (·.tabId = tabId)).Sublist
      (app.view tabId).tasks :=
  (append_other ChatTask.tabId _ apart).trans ((withoutTracked_sublist app other).filter _)

theorem untracked_sublist (app : App Host) (tabId : Nat) :
    (app.untracked tabId).Sublist (app.view tabId).tasks :=
  (withoutTracked_sublist app tabId).filter _

theorem erase_sublist (index : Nat) :
    ((app.erase index).view tabId).stirring.Sublist (app.view tabId).stirring :=
  ((app.mail.eraseIdx_sublist index).filter _).filter _

variable {index : Nat} {envelope : Envelope}

/-- What stirs and is handled is taken from the tab's messages. -/
theorem stirring_erase (found : app.mail[index]? = some envelope) (own : envelope.tabId = tabId)
    (stirs : envelope.stirs = true) :
    (app.view tabId).stirring.Perm (envelope :: ((app.erase index).view tabId).stirring) := by
  obtain ⟨within, isEnvelope⟩ := List.getElem?_eq_some_iff.mp found
  have taken := ((getElem_cons_eraseIdx_perm within).symm.filter Envelope.stirs).filter
    (·.tabId = tabId)
  have kept (others : List Envelope) : (envelope :: others).filter (·.tabId = tabId) =
      envelope :: others.filter (·.tabId = tabId) :=
    filter_cons_of_pos (decide_eq_true own)
  rw [isEnvelope, filter_cons_of_pos stirs, kept] at taken
  exact taken

theorem mem_of_found (found : app.mail[index]? = some envelope) (own : envelope.tabId = tabId)
    (stirs : envelope.stirs = true) : envelope ∈ (app.view tabId).stirring :=
  (stirring_erase found own stirs).mem_iff.mpr mem_cons_self

theorem mem_view {task : ChatTask} (live : task ∈ app.tasks) (own : task.tabId = tabId) :
    task ∈ (app.view tabId).tasks :=
  mem_filter.mpr ⟨live, decide_eq_true own⟩

variable {outline : Outline Host}

theorem standing_set_other (apart : tabId ≠ other) (standing : Standing Host) :
    (outline.set other standing).standing tabId = outline.standing tabId :=
  Function.update_of_ne apart _ _

theorem standing_set_own (outline : Outline Host) (standing : Standing Host) :
    (outline.set tabId standing).standing tabId = some standing :=
  Function.update_self _ _ _

theorem log_own (event : Event Host) (own : event.tabId = tabId) :
    (event :: app.log).filter (·.tabId = tabId) = event :: (app.view tabId).log :=
  filter_cons_of_pos (decide_eq_true own)

theorem log_other (event : Event Host) (apart : event.tabId ≠ tabId) :
    (event :: app.log).filter (·.tabId = tabId) = (app.view tabId).log :=
  filter_cons_of_neg (by rwa [decide_eq_true_eq])

variable {action : Action Host}

theorem TabMove.of_view {view : View Host} (moved : TabMove app tabId action view)
    (standing : outline.standing tabId = view.standing)
    (tasks : outline.tasks.filter (·.tabId = tabId) = view.tasks)
    (stirring : outline.stirring.filter (·.tabId = tabId) = view.stirring)
    (log : outline.log.filter (·.tabId = tabId) = view.log) :
    TabMove app tabId action (outline.view tabId) := by
  rwa [Outline.view, standing, tasks, stirring, log]

/-- Every action moves a tab in one of the ways there are for one tab. -/
theorem tabMove_of_move (move : Move app action outline) (tabId : Nat) :
    TabMove app tabId action (outline.view tabId) := by
  cases move with
  | idle standing tasks stirring log =>
    refine .idle (standing tabId) (tasks.filter _) (stirring.filter _) ?_
    show outline.log.filter _ = _
    rw [log]
    rfl
  | @proposes task live _ isStream id command risk thoughtSignature =>
    by_cases own : task.tabId = tabId
    · subst own
      exact (TabMove.proposes (mem_view live rfl) isStream id command risk thoughtSignature).of_view
        rfl (filter_map_emitted _ _) (filter_append_own Envelope.tabId _ rfl) rfl
    · exact .idle (.inl rfl) (map_emitted_other own _) (append_other Envelope.tabId _ own) rfl
  | @allows task live command risk thoughtSignature isJudge id =>
    by_cases own : task.tabId = tabId
    · subst own
      exact (TabMove.allows (mem_view live rfl) isJudge id).of_view rfl (filter_comm _ _ _)
        (filter_append_own Envelope.tabId _ rfl) rfl
    · exact .idle (.inl rfl) (filter_sublist.filter _) (append_other Envelope.tabId _ own) rfl
  | @polled task live toolId isPoll id output =>
    by_cases own : task.tabId = tabId
    · subst own
      exact (TabMove.polled (mem_view live rfl) isPoll id output).of_view rfl
        (filter_comm _ _ _) (filter_append_own Envelope.tabId _ rfl) rfl
    · exact .idle (.inl rfl) (filter_sublist.filter _) (append_other Envelope.tabId _ own) rfl
  | @granted index envelope found command risk thoughtSignature isProposed standing isTab gate
      sender =>
    by_cases own : envelope.tabId = tabId
    · subst own
      exact (TabMove.granted found rfl isProposed isTab gate sender).of_view rfl rfl
        (filter_append_own Envelope.tabId _ rfl) rfl
    · refine .idle (.inl rfl) (Sublist.refl _) ?_ rfl
      exact Sublist.trans (append_other Envelope.tabId _ (by exact own)) (erase_sublist index)
  | @judges index envelope found command risk thoughtSignature isProposed standing isTab gate id =>
    by_cases own : envelope.tabId = tabId
    · subst own
      exact (TabMove.judges found rfl isProposed isTab gate id).of_view rfl (tracking_own _ _ _) rfl
        rfl
    · exact .idle (.inl rfl) (tracking_other own _ _ _) (erase_sublist index) rfl
  | @types index envelope found command risk thoughtSignature isExec standing isTab id toolId =>
    by_cases own : envelope.tabId = tabId
    · subst own
      exact (TabMove.types found rfl isExec isTab id toolId).of_view (standing_set_own _ _)
        (tracking_own _ _ _) rfl (log_own _ rfl)
    · exact .idle (.inl (standing_set_other (Ne.symm own) _)) (tracking_other own _ _ _)
        (erase_sublist index) (log_other _ own)
  | @misses index envelope found command risk thoughtSignature isExec standing isTab =>
    by_cases own : envelope.tabId = tabId
    · subst own
      exact (TabMove.misses found rfl isExec isTab).of_view (standing_set_own _ _) rfl rfl rfl
    · exact .idle (.inl (standing_set_other (Ne.symm own) _)) (Sublist.refl _)
        (erase_sublist index) rfl
  | @continues index envelope found toolId output isResult standing isTab id =>
    by_cases own : envelope.tabId = tabId
    · subst own
      exact (TabMove.continues found rfl isResult isTab id).of_view rfl (tracking_own _ _ _) rfl rfl
    · exact .idle (.inl rfl) (tracking_other own _ _ _) (erase_sublist index) rfl
  | @sends moved inFront standing isTab input id =>
    by_cases own : moved = tabId
    · subst own
      exact (TabMove.sends inFront isTab input id).of_view (standing_set_own _ _)
        (tracking_own _ _ _) rfl (log_own _ rfl)
    · exact .idle (.inl (standing_set_other (Ne.symm own) _)) (tracking_other own _ _ _)
        (Sublist.refl _) (log_other _ own)
  | @retries moved inFront standing isTab id =>
    by_cases own : moved = tabId
    · subst own
      exact (TabMove.retries inFront isTab id).of_view rfl (tracking_own _ _ _) rfl (log_own _ rfl)
    · exact .idle (.inl rfl) (tracking_other own _ _ _) (Sublist.refl _) (log_other _ own)
  | @approves moved inFront standing other isTab gesture command approved id thoughtSignature =>
    by_cases own : moved = tabId
    · subst own
      exact (TabMove.approves inFront isTab approved id thoughtSignature).of_view
        (standing_set_own _ _) rfl (filter_append_own Envelope.tabId _ rfl) (log_own _ rfl)
    · exact .idle (.inl (standing_set_other (Ne.symm own) _)) (Sublist.refl _)
        (append_other Envelope.tabId _ own) (log_other _ own)
  | @denies moved inFront standing isTab command =>
    by_cases own : moved = tabId
    · subst own
      exact (TabMove.denies inFront isTab command).of_view rfl rfl rfl (log_own _ rfl)
    · exact .idle (.inl rfl) (Sublist.refl _) (Sublist.refl _) (log_other _ own)
  | @halts moved inFront standing other isTab gesture halted =>
    by_cases own : moved = tabId
    · subst own
      exact (TabMove.halts inFront isTab halted).of_view (standing_set_own _ _) rfl rfl
        (log_own _ rfl)
    · exact .idle (.inl (standing_set_other (Ne.symm own) _))
        ((withoutTracked_sublist app moved).filter _) (Sublist.refl _) (log_other _ own)
  | @sets moved inFront standing isTab mode =>
    by_cases own : moved = tabId
    · subst own
      exact (TabMove.sets inFront isTab mode).of_view (standing_set_own _ _) rfl rfl (log_own _ rfl)
    · exact .idle (.inl (standing_set_other (Ne.symm own) _)) (Sublist.refl _)
        (Sublist.refl _) (log_other _ own)
  | @faces action moved standing isTab moves pane host =>
    by_cases own : moved = tabId
    · subst own
      exact (TabMove.faces isTab moves pane host).of_view (standing_set_own _ _) rfl rfl rfl
    · exact .idle (.inl (standing_set_other (Ne.symm own) _)) (Sublist.refl _)
        (Sublist.refl _) rfl

/-- What one step does to one tab. -/
theorem tabMove_of_step {next : App Host} (stepped : assistant.step app action = some next)
    (tabId : Nat) :
    TabMove app tabId action (next.view tabId) :=
  tabMove_of_move (move_of_step stepped) tabId

theorem App.Initial.view {app : App Host} (initial : app.Initial) (tabId : Nat) :
    (app.view tabId).tasks = [] ∧ (app.view tabId).stirring = [] ∧ (app.view tabId).log = [] := by
  refine ⟨?_, ?_, ?_⟩
  · show app.tasks.filter _ = []
    rw [initial.idle]
    rfl
  · show (app.mail.filter _).filter _ = []
    rw [initial.unread]
    rfl
  · show app.log.filter _ = []
    rw [initial.unlogged]
    rfl

end

end Oryxis.Assistant

/-
This file is the assistant in outline: for each tab its mode, the names it lets run, what
it has counted and the pane in front; the tasks that live; the messages that can still
lead to a command; and the log. Every action moves the outline in one of a few ways, and
what holds of a run is proved of the moves.
-/

import Oryxis.Assistant.Chat

namespace Oryxis.Assistant

open Function Library List

variable {Host : Type*}

/-! ### The outline -/

structure Standing (Host : Type*) where
  mode : ChatMode
  granted : List String
  history : List String
  streak : Nat
  pane : Nat
  host : Host

def TerminalTab.standing (tab : TerminalTab Host) : Standing Host where
  mode := tab.chatMode
  granted := tab.chatAlwaysRunCommands
  history := tab.chatAutoRunHistory
  streak := tab.chatAutoRunStreak
  pane := tab.active.handle
  host := tab.active.host

/-- A message that can lead to a command. -/
def AiMessage.stirs : AiMessage → Bool
  | .chatToolProposed _ _ _ | .chatToolExec _ _ _ | .chatToolResult _ _ => true
  | .chatStreamChunk _ | .chatStreamReasoning _ | .chatStreamDone | .chatError _
  | .chatToolGuardBlocked _ _ => false

def Envelope.stirs (envelope : Envelope) : Bool := envelope.message.stirs

structure Outline (Host : Type*) where
  standing : Nat → Option (Standing Host)
  tasks : List ChatTask
  stirring : List Envelope
  log : List (Event Host)

namespace App

def standing (app : App Host) (tabId : Nat) : Option (Standing Host) :=
  (app.tabs tabId).map TerminalTab.standing

def stirring (app : App Host) : List Envelope := app.mail.filter Envelope.stirs

def outline (app : App Host) : Outline Host where
  standing := app.standing
  tasks := app.tasks
  stirring := app.stirring
  log := app.log

/-- The tasks with this one in the place of the one its tab had the handle of. -/
def tracking (app : App Host) (task : ChatTask) : List ChatTask :=
  app.withoutTracked task.tabId ++ [task]

end App

def Outline.set (outline : Outline Host) (tabId : Nat) (standing : Standing Host) : Outline Host :=
  { outline with standing := update outline.standing tabId (some standing) }

namespace Standing

def resetGuard (standing : Standing Host) : Standing Host :=
  { standing with history := [], streak := 0 }

def count (standing : Standing Host) (command : String) : Standing Host :=
  let history := standing.history ++ [command]
  { standing with
    history := if 50 < history.length then history.tail else history
    streak := standing.streak + 1 }

def gateInput (standing : Standing Host) (command risk : String) : ToolGateInput where
  mode := standing.mode
  allowed := standing.granted.contains (firstToken command)
  hasChaining := hasShellChaining command
  riskSafe := risk = "safe"
  obviouslyDestructive := isObviouslyDestructive command
  streakExceeded := chatAutoRunStreakMax ≤ standing.streak
  alreadyAutoRan := standing.history.contains command

end Standing

/-! ### The moves -/

/-- How an action moves the outline. -/
inductive Move (app : App Host) : Action Host → Outline Host → Prop
  | idle {action : Action Host} {outline : Outline Host}
      (standing : ∀ tabId, outline.standing tabId = app.standing tabId ∨
        outline.standing tabId = none)
      (tasks : outline.tasks.Sublist app.tasks)
      (stirring : outline.stirring.Sublist app.stirring) (log : outline.log = app.log) :
      Move app action outline
  | proposes {task : ChatTask} (live : task ∈ app.tasks) {toolEmitted : Bool}
      (isStream : task.work = .stream toolEmitted) (id : Nat) (command risk : String)
      (thoughtSignature : Option String) :
      Move app (.stream id (.toolUse command risk thoughtSignature)) { app.outline with
        tasks := app.tasks.map task.emitted
        stirring := app.stirring ++ [⟨task.id, task.tabId, task.origin,
          .chatToolProposed command risk thoughtSignature⟩] }
  | allows {task : ChatTask} (live : task ∈ app.tasks) {command risk : String}
      {thoughtSignature : Option String}
      (isJudge : task.work = .judge command risk thoughtSignature) (id : Nat) :
      Move app (.verdict id true) { app.outline with
        tasks := app.tasks.filter (·.id ≠ task.id)
        stirring := app.stirring ++ [⟨task.id, task.tabId, task.origin,
          .chatToolExec command risk thoughtSignature⟩] }
  | polled {task : ChatTask} (live : task ∈ app.tasks) {toolId : Nat}
      (isPoll : task.work = .poll toolId) (id : Nat) (output : String) :
      Move app (.output id output) { app.outline with
        tasks := app.tasks.filter (·.id ≠ task.id)
        stirring := app.stirring ++ [⟨task.id, task.tabId, task.origin,
          .chatToolResult toolId output⟩] }
  | granted {index : Nat} {envelope : Envelope} (found : app.mail[index]? = some envelope)
      {command risk : String} {thoughtSignature : Option String}
      (isProposed : envelope.message = .chatToolProposed command risk thoughtSignature)
      {standing : Standing Host} (isTab : app.standing envelope.tabId = some standing)
      (gate : classifyToolGate (standing.gateInput command risk) = .autoExec)
      (sender : Nat) :
      Move app (.deliver index) { app.outline with
        stirring := (app.erase index).stirring ++ [⟨sender, envelope.tabId, { envelope.origin with way := .granted },
          .chatToolExec command risk thoughtSignature⟩] }
  | judges {index : Nat} {envelope : Envelope} (found : app.mail[index]? = some envelope)
      {command risk : String} {thoughtSignature : Option String}
      (isProposed : envelope.message = .chatToolProposed command risk thoughtSignature)
      {standing : Standing Host} (isTab : app.standing envelope.tabId = some standing)
      (gate : classifyToolGate (standing.gateInput command risk) = .judge)
      (id : Nat) :
      Move app (.deliver index) { app.outline with
        tasks := app.tracking ⟨id, envelope.tabId, { envelope.origin with way := .judged },
          .judge command risk thoughtSignature⟩
        stirring := (app.erase index).stirring }
  | types {index : Nat} {envelope : Envelope} (found : app.mail[index]? = some envelope)
      {command risk : String} {thoughtSignature : Option String}
      (isExec : envelope.message = .chatToolExec command risk thoughtSignature)
      {standing : Standing Host} (isTab : app.standing envelope.tabId = some standing)
      (id toolId : Nat) :
      Move app (.deliver index) (Outline.set { app.outline with
        tasks := app.tracking ⟨id, envelope.tabId, envelope.origin, .poll toolId⟩
        stirring := (app.erase index).stirring
        log := .wrote ⟨envelope.tabId, standing.pane, standing.host, command, risk,
          envelope.origin, standing.mode,
          standing.granted.contains (firstToken command)⟩ :: app.log } envelope.tabId
            (standing.count command))
  | misses {index : Nat} {envelope : Envelope} (found : app.mail[index]? = some envelope)
      {command risk : String} {thoughtSignature : Option String}
      (isExec : envelope.message = .chatToolExec command risk thoughtSignature)
      {standing : Standing Host} (isTab : app.standing envelope.tabId = some standing) :
      Move app (.deliver index) (Outline.set { app.outline with stirring := (app.erase index).stirring } envelope.tabId
        (standing.count command))
  | continues {index : Nat} {envelope : Envelope} (found : app.mail[index]? = some envelope)
      {toolId : Nat} {output : String} (isResult : envelope.message = .chatToolResult toolId output)
      {standing : Standing Host} (isTab : app.standing envelope.tabId = some standing)
      (id : Nat) :
      Move app (.deliver index) { app.outline with
        tasks := app.tracking ⟨id, envelope.tabId, ⟨standing.pane, .proposed⟩, .stream false⟩
        stirring := (app.erase index).stirring }
  | sends {tabId : Nat} (inFront : app.activeTab = some tabId) {standing : Standing Host}
      (isTab : app.standing tabId = some standing) (input : String) (id : Nat) :
      Move app (.gesture (.sendChat input)) (Outline.set { app.outline with
        tasks := app.tracking ⟨id, tabId, ⟨standing.pane, .proposed⟩, .stream false⟩
        log := .gestured tabId standing.host (.sendChat input) :: app.log } tabId
          standing.resetGuard)
  | retries {tabId : Nat} (inFront : app.activeTab = some tabId) {standing : Standing Host}
      (isTab : app.standing tabId = some standing) (id : Nat) :
      Move app (.gesture .chatRetry) { app.outline with
        tasks := app.tracking ⟨id, tabId, ⟨standing.pane, .proposed⟩, .stream false⟩
        log := .gestured tabId standing.host .chatRetry :: app.log }
  | approves {tabId : Nat} (inFront : app.activeTab = some tabId) {standing other : Standing Host}
      (isTab : app.standing tabId = some standing) {gesture : Gesture} {command : String}
      (approved : gesture = .chatToolApprove command ∧ other = standing.resetGuard ∨
        gesture = .chatToolApproveAlways command ∧ ∃ granted,
          (granted = standing.granted ∧ (firstToken command = "" ∨
              standing.granted.contains (firstToken command) = true) ∨
            granted = standing.granted ++ [firstToken command]) ∧
          other = { standing.resetGuard with granted := granted })
      (id : Nat) (thoughtSignature : Option String) :
      Move app (.gesture gesture) (Outline.set { app.outline with
        stirring := app.stirring ++ [⟨id, tabId, ⟨standing.pane, .approved⟩,
          .chatToolExec command "risky" thoughtSignature⟩]
        log := .gestured tabId standing.host gesture :: app.log } tabId other)
  | denies {tabId : Nat} (inFront : app.activeTab = some tabId) {standing : Standing Host}
      (isTab : app.standing tabId = some standing) (command : String) :
      Move app (.gesture (.chatToolDeny command)) { app.outline with
        log := .gestured tabId standing.host (.chatToolDeny command) :: app.log }
  | halts {tabId : Nat} (inFront : app.activeTab = some tabId) {standing other : Standing Host}
      (isTab : app.standing tabId = some standing) {gesture : Gesture}
      (halted : gesture = .chatStop ∧ other = standing ∨
        gesture = .chatResetConversation ∧ other = standing.resetGuard) :
      Move app (.gesture gesture) (Outline.set { app.outline with
        tasks := app.withoutTracked tabId
        log := .gestured tabId standing.host gesture :: app.log } tabId other)
  | sets {tabId : Nat} (inFront : app.activeTab = some tabId) {standing : Standing Host}
      (isTab : app.standing tabId = some standing) (mode : ChatMode) :
      Move app (.gesture (.chatModeChanged mode)) (Outline.set { app.outline with
        log := .gestured tabId standing.host (.chatModeChanged mode) :: app.log } tabId
          { standing with mode := mode })
  | faces {action : Action Host} {tabId : Nat} {standing : Standing Host}
      (isTab : app.standing tabId = some standing)
      (moves : (∃ pane, action = .focusPane tabId pane) ∨
        (∃ host connected, action = .splitPane tabId host connected) ∨
        ∃ pane sibling, action = .closePane tabId pane sibling)
      (pane : Nat) (host : Host) :
      Move app action (app.outline.set tabId { standing with pane := pane, host := host })

/-! ### What the parts of a step do to the outline -/

theorem standing_popIf (tab : TerminalTab Host) (drops : ChatMessage → Bool) :
    (tab.popIf drops).standing = tab.standing ∧ (tab.popIf drops).chatTask = tab.chatTask := by
  unfold TerminalTab.popIf
  split <;> exact ⟨rfl, rfl⟩

theorem standing_extend (tab : TerminalTab Host) (text reasoning : String) :
    (tab.extend text reasoning).standing = tab.standing := by
  unfold TerminalTab.extend
  split
  · split <;> rfl
  · rfl

theorem standing_grant (tab : TerminalTab Host) (command : String) :
    ((tab.grant command).standing = tab.standing ∧ (firstToken command = "" ∨
        tab.chatAlwaysRunCommands.contains (firstToken command) = true)) ∨
      (tab.grant command).standing =
        { tab.standing with granted := tab.standing.granted ++ [firstToken command] } := by
  unfold TerminalTab.grant
  dsimp only
  split
  · exact .inr rfl
  · rename_i known
    refine .inl ⟨rfl, ?_⟩
    rw [not_and_or, not_not, not_not] at known
    exact known

theorem active_session (tab : TerminalTab Host) (pane : Nat) (connected : Bool) :
    (tab.session pane connected).active.handle = tab.active.handle ∧
      (tab.session pane connected).active.host = tab.active.host := by
  let change (one : Pane Host) : Pane Host :=
    if one.handle = pane then { one with connected := connected } else one
  have same (one : Pane Host) : (change one).handle = one.handle ∧ (change one).host = one.host := by
    show (if one.handle = pane then _ else _ : Pane Host).handle = _ ∧ _
    dsimp only [change]
    split <;> exact ⟨rfl, rfl⟩
  have isActive : (tab.session pane connected).active = change tab.active := by
    have sameFocus : (fun one : Pane Host => decide (one.handle = tab.focused)) ∘ change =
        fun one => decide (one.handle = tab.focused) := by
      funext one
      rw [Function.comp_apply, (same one).1]
    have found : (tab.panes.map change).find? (fun one => decide (one.handle = tab.focused)) =
        (tab.panes.find? fun one => decide (one.handle = tab.focused)).map change := by
      rw [find?_map, sameFocus]
    have hasPane : tab.panes.map change ≠ [] := by
      rw [Ne, map_eq_nil_iff]
      exact tab.hasPane
    show ((tab.panes.map change).find? fun one => decide (one.handle = tab.focused)).getD
      ((tab.panes.map change).head hasPane) = _
    rw [found, head_map, TerminalTab.active]
    cases tab.panes.find? fun one => decide (one.handle = tab.focused) <;> rfl
  rw [isActive]
  exact same tab.active

namespace App

theorem standing_updateTab {app : App Host} {tabId : Nat} {tab : TerminalTab Host}
    (isTab : app.tabs tabId = some tab) (change : TerminalTab Host → TerminalTab Host) :
    (app.updateTab tabId change).standing =
      update app.standing tabId (some (change tab).standing) := by
  funext other
  show (update app.tabs tabId ((app.tabs tabId).map change) other).map _ = _
  by_cases same : other = tabId
  · subst same
    rw [update_self, update_self, isTab]
    rfl
  · rw [update_of_ne same, update_of_ne same]
    rfl

variable {change : TerminalTab Host → TerminalTab Host}

theorem standing_updateTab_of_same {app : App Host} {tabId : Nat}
    (same : ∀ tab, (change tab).standing = tab.standing) :
    (app.updateTab tabId change).standing = app.standing := by
  cases isTab : app.tabs tabId with
  | some tab =>
    rw [standing_updateTab isTab, same]
    refine (Function.eq_update_iff.mpr ⟨?_, fun _ _ => rfl⟩).symm
    rw [standing, isTab]
    rfl
  | none =>
    funext other
    show (update app.tabs tabId ((app.tabs tabId).map change) other).map _ = _
    by_cases isIt : other = tabId
    · rw [isIt, update_self, isTab]
      show none = (app.tabs tabId).map _
      rw [isTab]
      rfl
    · rw [update_of_ne isIt]
      rfl

theorem outline_updateTab {app : App Host} {tabId : Nat}
    (same : ∀ tab, (change tab).standing = tab.standing) :
    (app.updateTab tabId change).outline = app.outline := by
  rw [outline, standing_updateTab_of_same same]
  rfl

theorem outline_updateTab_of_some {app : App Host} {tabId : Nat} (tab : TerminalTab Host)
    (isTab : app.tabs tabId = some tab) :
    (app.updateTab tabId change).outline = app.outline.set tabId (change tab).standing := by
  rw [outline, standing_updateTab isTab]
  rfl

theorem withoutTracked_updateTab {app : App Host} {tabId : Nat}
    (same : ∀ tab, (change tab).chatTask = tab.chatTask) :
    (app.updateTab tabId change).withoutTracked tabId = app.withoutTracked tabId := by
  have handle : ((app.updateTab tabId change).tabs tabId).bind (·.chatTask) =
      (app.tabs tabId).bind (·.chatTask) := by
    show (update app.tabs tabId ((app.tabs tabId).map change) tabId).bind _ = _
    rw [update_self]
    cases app.tabs tabId with
    | none => rfl
    | some tab => exact same tab
  rw [withoutTracked, handle]
  rfl

theorem outline_abortChatTaskFor (app : App Host) (tabId : Nat) :
    (app.abortChatTaskFor tabId).outline =
      { app.outline with tasks := app.withoutTracked tabId } := by
  unfold abortChatTaskFor
  exact outline_updateTab fun _ => rfl

theorem outline_trackChatTaskFor (app : App Host) (tabId : Nat) (origin : Origin) (work : Work) :
    (app.trackChatTaskFor tabId origin work).outline =
      { app.outline with tasks := app.tracking ⟨app.nextId, tabId, origin, work⟩ } := by
  have aborted : (app.abortChatTaskFor tabId).standing = app.standing :=
    congrArg Outline.standing (outline_abortChatTaskFor app tabId)
  have unseen (tab : TerminalTab Host) :
      ({ tab with chatTask := some app.nextId } : TerminalTab Host).standing = tab.standing := rfl
  rw [trackChatTaskFor, outline_updateTab unseen]
  show Outline.mk (app.abortChatTaskFor tabId).standing _ _ _ = _
  rw [aborted]
  rfl

/-- A change of the tab that goes before a new task. -/
theorem outline_track_updateTab {app : App Host} {tabId : Nat}
    (same : ∀ tab, (change tab).chatTask = tab.chatTask) (origin : Origin) (work : Work) :
    ((app.updateTab tabId change).trackChatTaskFor tabId origin work).outline =
      { (app.updateTab tabId change).outline with
        tasks := app.tracking ⟨app.nextId, tabId, origin, work⟩ } := by
  rw [outline_trackChatTaskFor, tracking, withoutTracked_updateTab same]
  rfl

theorem outline_spawnChatStreamFor {app : App Host} {tabId : Nat} (tab : TerminalTab Host) :
    (app.spawnChatStreamFor tabId tab).outline = { app.outline with
      tasks := app.tracking ⟨app.nextId, tabId, ⟨tab.active.handle, .proposed⟩, .stream false⟩ } := by
  rw [spawnChatStreamFor, outline_track_updateTab ?_, outline_updateTab ?_]
  · exact fun _ => rfl
  · exact fun _ => rfl

theorem outline_done (app : App Host) (tabId : Nat) (origin : Origin) (message : AiMessage) :
    (app.done tabId origin message).outline = { app.outline with
      stirring := app.stirring ++
        ([⟨app.nextId, tabId, origin, message⟩] : List Envelope).filter Envelope.stirs } := by
  show Outline.mk _ _ ((app.mail ++ _).filter _) _ = _
  rw [filter_append]
  rfl

theorem outline_block (app : App Host) (tabId : Nat) (command : String)
    (thoughtSignature : Option String) :
    (app.block tabId command thoughtSignature).outline = app.outline := by
  rw [block, outline_updateTab ?_]
  exact fun tab => (standing_popIf tab _).1

end App

/-! ### A message is handled -/

section

variable {app : App Host} {index : Nat} {envelope : Envelope}

theorem Move.idle_erase {outline : Outline Host} (same : outline = (app.erase index).outline) :
    Move app (.deliver index) outline := by
  subst same
  exact .idle (fun _ => .inl rfl) (Sublist.refl _) (app.mail.eraseIdx_sublist index |>.filter _)
    rfl

variable {command risk : String} {thoughtSignature : Option String}

theorem move_chatToolProposed (found : app.mail[index]? = some envelope)
    (isProposed : envelope.message = .chatToolProposed command risk thoughtSignature)
    {tab : TerminalTab Host} (isTab : app.tabs envelope.tabId = some tab) :
    Move app (.deliver index) ((app.erase index).chatToolProposed envelope.tabId tab
      envelope.origin command risk thoughtSignature).outline := by
  have isStanding : app.standing envelope.tabId = some tab.standing := by
    rw [App.standing, isTab]
    rfl
  unfold App.chatToolProposed
  cases gate : classifyToolGate (App.gateInput tab command risk) with
  | autoExec =>
    dsimp only
    rw [App.outline_done]
    exact .granted found isProposed isStanding gate _
  | confirm =>
    dsimp only
    rw [App.outline_done]
    refine .idle_erase ?_
    rw [filter_cons_of_neg Bool.false_ne_true, filter_nil, append_nil]
    rfl
  | judge =>
    dsimp only
    rw [App.outline_track_updateTab ?_, App.outline_updateTab ?_]
    · exact .judges found isProposed isStanding gate _
    · exact fun _ => rfl
    · exact fun _ => rfl
  | prompt =>
    dsimp only
    rw [App.outline_block]
    exact .idle_erase rfl

theorem move_chatToolExec (found : app.mail[index]? = some envelope)
    (isExec : envelope.message = .chatToolExec command risk thoughtSignature)
    {tab : TerminalTab Host} (isTab : app.tabs envelope.tabId = some tab) :
    Move app (.deliver index) ((app.erase index).chatToolExec envelope.tabId tab
      envelope.origin command risk thoughtSignature).outline := by
  have isStanding : app.standing envelope.tabId = some tab.standing := by
    rw [App.standing, isTab]
    rfl
  unfold App.chatToolExec
  split
  · dsimp only
    rw [App.outline_track_updateTab ?_, App.outline_updateTab_of_some tab ?_]
    · exact .types found isExec isStanding _ _
    · exact isTab
    · exact fun _ => rfl
  · rw [App.outline_updateTab_of_some tab ?_]
    · exact .misses found isExec isStanding
    · exact isTab

theorem move_chatToolResult (found : app.mail[index]? = some envelope) {toolId : Nat}
    {output : String} (isResult : envelope.message = .chatToolResult toolId output)
    {tab : TerminalTab Host} (isTab : app.tabs envelope.tabId = some tab) :
    Move app (.deliver index) ((app.erase index).chatToolResult envelope.tabId tab toolId
      output).outline := by
  have isStanding : app.standing envelope.tabId = some tab.standing := by
    rw [App.standing, isTab]
    rfl
  unfold App.chatToolResult
  split
  · rw [App.outline_spawnChatStreamFor, App.outline_updateTab ?_, App.tracking,
      App.withoutTracked_updateTab ?_]
    · exact .continues found isResult isStanding _
    · exact fun _ => rfl
    · exact fun _ => rfl
  · rw [App.outline_updateTab ?_]
    · exact .idle_erase rfl
    · exact fun _ => rfl

theorem move_receive (found : app.mail[index]? = some envelope) :
    Move app (.deliver index) ((app.erase index).receive envelope).outline := by
  unfold App.receive
  dsimp only
  cases isTab : (app.erase index).tabs envelope.tabId with
  | none => exact .idle_erase rfl
  | some tab =>
    dsimp only
    cases said : envelope.message with
    | chatStreamChunk delta | chatStreamReasoning delta =>
      dsimp only
      rw [App.outline_updateTab ?_]
      · exact .idle_erase rfl
      · exact fun tab => standing_extend tab _ _
    | chatStreamDone =>
      dsimp only
      rw [App.outline_updateTab ?_]
      · exact .idle_erase rfl
      · exact fun _ => rfl
    | chatError error =>
      dsimp only
      rw [App.outline_updateTab ?_]
      · exact .idle_erase rfl
      · exact fun tab => (standing_popIf tab _).1
    | chatToolGuardBlocked command thoughtSignature =>
      dsimp only
      rw [App.outline_block]
      exact .idle_erase rfl
    | chatToolProposed command risk thoughtSignature =>
      exact move_chatToolProposed found said isTab
    | chatToolExec command risk thoughtSignature => exact move_chatToolExec found said isTab
    | chatToolResult toolId output => exact move_chatToolResult found said isTab

end

/-! ### A gesture -/

section

variable {app : App Host} {tabId : Nat} {tab : TerminalTab Host}

theorem Move.of_same {action : Action Host} {outline : Outline Host}
    (same : outline = app.outline) : Move app action outline := by
  subst same
  exact .idle (fun _ => .inl rfl) (Sublist.refl _) (Sublist.refl _) rfl

theorem set_same {outline : Outline Host} {standing : Standing Host}
    (isTab : outline.standing tabId = some standing) : outline.set tabId standing = outline := by
  rw [Outline.set, ← isTab, update_eq_self]

/-- What the user let run is on its way, with the tab's count at naught. -/
theorem outline_approve (isTab : app.tabs tabId = some tab) (command : String)
    (change : TerminalTab Host → TerminalTab Host) :
    (app.approve tabId tab command change).outline = Outline.set { app.outline with
      stirring := app.stirring ++ [⟨app.nextId, tabId, ⟨tab.active.handle, .approved⟩,
        .chatToolExec command "risky" (App.pendingSignature tab command)⟩] } tabId
          (change tab).standing.resetGuard := by
  have reset : (((change tab).popIf (TerminalTab.isPending command)).resetGuard).standing =
      (change tab).standing.resetGuard :=
    congrArg Standing.resetGuard (standing_popIf (change tab) _).1
  rw [App.approve, App.outline_done, App.outline_updateTab_of_some tab isTab, reset]
  rfl

theorem move_handle (inFront : app.activeTab = some tabId) (isTab : app.tabs tabId = some tab)
    (gesture : Gesture) : Move app (.gesture gesture) (app.handle tabId tab gesture).outline := by
  have isStanding : app.standing tabId = some tab.standing := by
    rw [App.standing, isTab]
    rfl
  cases gesture with
  | sendChat input =>
    unfold App.handle
    dsimp only
    split
    · exact .of_same rfl
    · rw [App.outline_spawnChatStreamFor, App.outline_updateTab_of_some tab ?_, App.tracking,
        App.withoutTracked_updateTab ?_]
      · exact .sends inFront isStanding input _
      · exact fun _ => rfl
      · exact isTab
  | chatRetry =>
    unfold App.handle
    dsimp only
    split
    · rw [App.outline_updateTab ?_]
      · exact .of_same rfl
      · exact fun _ => rfl
    · rw [App.outline_spawnChatStreamFor, App.outline_updateTab ?_, App.tracking,
        App.withoutTracked_updateTab ?_]
      · exact .retries inFront isStanding _
      · exact fun _ => rfl
      · exact fun _ => rfl
  | chatToolApprove command =>
    unfold App.handle
    dsimp only
    rw [outline_approve ?_]
    · exact .approves inFront isStanding (.inl ⟨rfl, rfl⟩) _ _
    · exact isTab
  | chatToolApproveAlways command =>
    unfold App.handle
    dsimp only
    rw [outline_approve ?_]
    · refine .approves inFront isStanding (.inr ⟨rfl, ?_⟩) _ _
      rcases standing_grant tab command with ⟨same, known⟩ | grown
      · exact ⟨_, .inl ⟨rfl, known⟩, by rw [same]; rfl⟩
      · exact ⟨_, .inr rfl, by rw [grown]; rfl⟩
    · exact isTab
  | chatToolDeny command =>
    unfold App.handle
    dsimp only
    rw [App.outline_updateTab ?_]
    · exact .denies inFront isStanding command
    · exact fun tab => (standing_popIf tab _).1
  | chatResetConversation =>
    unfold App.handle
    dsimp only
    have isAborted : ((app.record (.gestured tabId tab.active.host
        .chatResetConversation)).abortChatTaskFor tabId).tabs tabId =
          some { tab with chatTask := none } := by
      show update app.tabs tabId ((app.tabs tabId).map _) tabId = _
      rw [update_self, isTab]
      rfl
    rw [App.outline_updateTab_of_some _ isAborted, App.outline_abortChatTaskFor]
    exact .halts inFront isStanding (.inr ⟨rfl, rfl⟩)
  | chatModeChanged mode =>
    unfold App.handle
    dsimp only
    rw [App.outline_updateTab_of_some tab ?_]
    · exact .sets inFront isStanding mode
    · exact isTab
  | chatStop =>
    unfold App.handle
    dsimp only
    rw [App.outline_updateTab ?_, App.outline_abortChatTaskFor]
    · have halts := Move.halts inFront isStanding (.inl ⟨rfl, rfl⟩)
      rwa [set_same] at halts
      exact isStanding
    · exact fun _ => rfl

end

/-! ### Every step -/

theorem outline_say (app : App Host) (task : ChatTask) (message : AiMessage) :
    (app.say task message).outline = { app.outline with
      stirring := app.stirring ++
        ([⟨task.id, task.tabId, task.origin, message⟩] : List Envelope).filter Envelope.stirs } := by
  show Outline.mk _ _ ((app.mail ++ _).filter _) _ = _
  rw [filter_append]
  rfl

variable {action : Action Host}

/-- What a stream brings, but for a command, changes the outline in no way that matters. -/
theorem move_say {app : App Host} (task : ChatTask) {message : AiMessage}
    (quiet : message.stirs = false) {tasks : List ChatTask} (fewer : tasks.Sublist app.tasks) :
    Move app action { (app.say task message).outline with tasks := tasks } := by
  have kept : ([⟨task.id, task.tabId, task.origin, message⟩] : List Envelope).filter
      Envelope.stirs = [] :=
    filter_cons_of_neg (Bool.eq_false_iff.mp quiet)
  rw [outline_say, kept, append_nil]
  exact .idle (fun _ => .inl rfl) fewer (Sublist.refl _) rfl

variable {next : App Host}

theorem move_stream {app : App Host} {task : ChatTask} (live : task ∈ app.tasks)
    {toolEmitted : Bool} (isStream : task.work = .stream toolEmitted) (id : Nat)
    {chunk : StreamChunk} (stepped : app.stream task toolEmitted chunk = some next) :
    Move app (.stream id chunk) next.outline := by
  cases chunk with
  | text delta | reasoning delta =>
    cases stepped
    exact move_say task rfl (Sublist.refl _)
  | done | error _ =>
    cases stepped
    exact move_say task rfl filter_sublist
  | toolUse command risk thoughtSignature =>
    change (if toolEmitted = true then none else some _) = some next at stepped
    split at stepped
    · cases stepped
    · cases stepped
      show Move app _ { (app.say task (.chatToolProposed command risk thoughtSignature)).outline with
        tasks := app.tasks.map task.emitted }
      rw [outline_say]
      exact .proposes live isStream id command risk thoughtSignature

theorem withoutTracked_sublist (app : App Host) (tabId : Nat) :
    (app.withoutTracked tabId).Sublist app.tasks := by
  unfold App.withoutTracked
  split
  · exact filter_sublist
  · exact Sublist.refl _

theorem move_abort {app : App Host} (tabId : Nat) :
    Move app action { app.outline with tasks := app.withoutTracked tabId } :=
  .idle (fun _ => .inl rfl) (withoutTracked_sublist app tabId) (Sublist.refl _) rfl

theorem standing_update_none (app : App Host) (tabId other : Nat) :
    (update app.tabs tabId none other).map TerminalTab.standing = app.standing other ∨
      (update app.tabs tabId none other).map TerminalTab.standing = none := by
  by_cases same : other = tabId
  · rw [same, update_self]
    exact .inr rfl
  · rw [update_of_ne same]
    exact .inl rfl

/-- Another pane comes to the front. -/
theorem move_faces {app : App Host} {tabId : Nat}
    (moves : (∃ pane, action = .focusPane tabId pane) ∨
      (∃ host connected, action = .splitPane tabId host connected) ∨
      ∃ pane sibling, action = .closePane tabId pane sibling)
    {change : TerminalTab Host → TerminalTab Host}
    (same : ∀ tab, app.tabs tabId = some tab → (change tab).standing =
      { tab.standing with pane := (change tab).active.handle, host := (change tab).active.host }) :
    Move app action (app.updateTab tabId change).outline := by
  cases isTab : app.tabs tabId with
  | none =>
    refine .of_same ?_
    have unchanged : (app.updateTab tabId change).tabs = app.tabs := by
      show update app.tabs tabId ((app.tabs tabId).map change) = app.tabs
      rw [isTab, Option.map_none, ← isTab, update_eq_self]
    show Outline.mk (fun other => ((app.updateTab tabId change).tabs other).map _) _ _ _ = _
    rw [unchanged]
    rfl
  | some tab =>
    have isStanding : app.standing tabId = some tab.standing := by
      rw [App.standing, isTab]
      rfl
    rw [App.outline_updateTab_of_some tab isTab, same tab isTab]
    exact .faces isStanding moves _ _

theorem standing_closePane {tab closed : TerminalTab Host} {pane sibling : Nat}
    (closes : tab.closePane pane sibling = some closed) :
    closed.standing =
      { tab.standing with pane := closed.active.handle, host := closed.active.host } := by
  unfold TerminalTab.closePane at closes
  dsimp only at closes
  split at closes
  · split at closes
    · cases closes
      rfl
    · cases closes
  · cases closes

theorem move_of_step {app : App Host} (stepped : assistant.step app action = some next) :
    Move app action next.outline := by
  cases action with
  | gesture gesture =>
    cases stepped
    unfold App.gesture
    split
    · exact .of_same rfl
    · rename_i tabId inFront
      split
      · exact .of_same rfl
      · rename_i tab isTab
        exact move_handle inFront isTab gesture
  | stream id chunk =>
    dsimp only [assistant] at stepped
    split at stepped
    · rename_i task found
      split at stepped
      · rename_i isStream
        exact move_stream (mem_of_find?_eq_some found) isStream id stepped
      · cases stepped
      · cases stepped
    · cases stepped
  | verdict id allow =>
    dsimp only [assistant] at stepped
    split at stepped
    · rename_i task found
      split at stepped
      · rename_i command risk thoughtSignature isJudge
        cases stepped
        cases allow with
        | true =>
          show Move app _ { (app.say task (.chatToolExec command risk thoughtSignature)).outline with
            tasks := app.tasks.filter (·.id ≠ task.id) }
          rw [outline_say]
          exact .allows (mem_of_find?_eq_some found) isJudge id
        | false => exact move_say task rfl filter_sublist
      · cases stepped
      · cases stepped
    · cases stepped
  | output id output =>
    dsimp only [assistant] at stepped
    split at stepped
    · rename_i task found
      split at stepped
      · rename_i toolId isPoll
        cases stepped
        show Move app _ { (app.say task (.chatToolResult toolId output)).outline with
          tasks := app.tasks.filter (·.id ≠ task.id) }
        rw [outline_say]
        exact .polled (mem_of_find?_eq_some found) isPoll id output
      · cases stepped
      · cases stepped
    · cases stepped
  | deliver index =>
    change app.deliver index = some next at stepped
    unfold App.deliver at stepped
    split at stepped
    · rename_i envelope found
      split at stepped
      · cases stepped
        exact move_receive found
      · cases stepped
    · cases stepped
  | switchTab tabId =>
    cases stepped
    exact .of_same rfl
  | closeTab tabId =>
    cases stepped
    refine .idle (fun other => ?_) (withoutTracked_sublist app tabId) (Sublist.refl _) rfl
    have closed := standing_update_none (app.abortChatTaskFor tabId) tabId other
    have aborted := congrArg Outline.standing (App.outline_abortChatTaskFor app tabId)
    rwa [show (app.abortChatTaskFor tabId).standing = app.standing from aborted] at closed
  | focusPane tabId pane =>
    cases stepped
    exact move_faces (.inl ⟨pane, rfl⟩) fun _ _ => rfl
  | splitPane tabId host connected =>
    cases stepped
    exact move_faces (.inr (.inl ⟨host, connected, rfl⟩)) fun _ _ => rfl
  | closePane tabId pane sibling =>
    dsimp only [assistant] at stepped
    split at stepped
    · rename_i closed closes
      cases stepped
      obtain ⟨tab, isTab, closesTab⟩ := Option.bind_eq_some_iff.mp closes
      refine move_faces (.inr (.inr ⟨pane, sibling, rfl⟩)) fun other isOther => ?_
      rw [isTab] at isOther
      cases isOther
      exact standing_closePane closesTab
    · cases stepped
  | session tabId pane connected =>
    cases stepped
    rw [App.outline_updateTab ?_]
    · exact .of_same rfl
    · intro tab
      obtain ⟨handle, host⟩ := active_session tab pane connected
      show Standing.mk _ _ _ _ _ _ = Standing.mk _ _ _ _ _ _
      rw [handle, host]
      rfl
  | hideChat =>
    cases stepped
    unfold App.abortActive
    split
    · exact .of_same rfl
    · rename_i tabId _
      rw [App.outline_updateTab ?_, App.outline_abortChatTaskFor]
      · exact move_abort tabId
      · exact fun _ => rfl
  | toggleAiEnabled =>
    cases stepped
    split
    · refine .idle (fun other => .inl ?_) filter_sublist (Sublist.refl _) rfl
      show ((app.tabs other).map _).map _ = (app.tabs other).map _
      rw [Option.map_map]
      rfl
    · exact .of_same rfl

end Oryxis.Assistant

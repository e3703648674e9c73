/-
This file is the assistant of the terminal tabs: the conversations, the tasks they run
and the messages between them.

Every tab keeps one handle, for the stream, the judge or the poll it started last, and
one place in its list of panes that has the focus. A task says its messages on its own;
they are handled later, in any order that keeps those of one task in turn, and what a
task has said is handled also when the task has been aborted since. A handler that sends
a message on starts a task for it that nobody has the handle of. A stream proposes one
command at most. Each task and message carries here what the code does not keep and the
runs are judged by: the pane whose terminal the stream was shown, and what let the
command through; and so does the log of what was written to the terminals and of what
the user did. Tabs that a run opens are there from its start. The text of a reply, its
rendering, what is saved of a conversation and what is sent to the provider are left
out.
-/

import Oryxis.Assistant.Gate
import Oryxis.Library.Machine

namespace Oryxis.Assistant

open Library

variable {Host : Type*}

/-! ### A tab -/

inductive ChatRole
  | user
  | assistant
  | system
  | error
  | pendingTool
  | tool
  deriving DecidableEq, Repr

/-- A command that runs or ran; one that waits for the user has no id yet. -/
structure ToolExchange where
  id : Option Nat
  command : String
  risk : String
  output : Option String
  thoughtSignature : Option String

structure ChatMessage where
  role : ChatRole
  content : String
  reasoning : String
  tool : Option ToolExchange

def ChatMessage.text (role : ChatRole) (content : String) : ChatMessage := ⟨role, content, "", none⟩

def pendingToolBubble (command : String) (thoughtSignature : Option String) : ChatMessage where
  role := .pendingTool
  content := command
  reasoning := ""
  tool := some ⟨none, command, "risky", none, thoughtSignature⟩

structure Pane (Host : Type*) where
  handle : Nat
  host : Host
  connected : Bool

structure TerminalTab (Host : Type*) where
  panes : List (Pane Host)
  hasPane : panes ≠ []
  focused : Nat
  lastPane : Nat
  chatHistory : List ChatMessage
  chatAlwaysRunCommands : List String
  chatAutoRunHistory : List String
  chatAutoRunStreak : Nat
  chatLoading : Bool
  chatTask : Option Nat
  chatMode : ChatMode

namespace TerminalTab

/-- The pane with the focus, or the first where that one is gone. -/
def active (tab : TerminalTab Host) : Pane Host :=
  (tab.panes.find? (·.handle = tab.focused)).getD (tab.panes.head tab.hasPane)

def push (tab : TerminalTab Host) (message : ChatMessage) : TerminalTab Host :=
  { tab with chatHistory := tab.chatHistory ++ [message] }

/-- Drops the last message where it is such a one. -/
def popIf (tab : TerminalTab Host) (drops : ChatMessage → Bool) : TerminalTab Host :=
  if tab.chatHistory.getLast?.any drops then { tab with chatHistory := tab.chatHistory.dropLast }
  else tab

/-- The empty place a reply was to land in. -/
def isEmptyReply (message : ChatMessage) : Bool := message.role = .assistant && message.content = ""

def isPending (command : String) (message : ChatMessage) : Bool :=
  message.role = .pendingTool && message.content = command

def resetGuard (tab : TerminalTab Host) : TerminalTab Host :=
  { tab with chatAutoRunHistory := [], chatAutoRunStreak := 0 }

/-- A command is counted; what is longer ago than the last fifty is forgotten. -/
def count (tab : TerminalTab Host) (command : String) : TerminalTab Host :=
  let history := tab.chatAutoRunHistory ++ [command]
  { tab with
    chatAutoRunHistory := if 50 < history.length then history.tail else history
    chatAutoRunStreak := tab.chatAutoRunStreak + 1 }

def grant (tab : TerminalTab Host) (command : String) : TerminalTab Host :=
  let name := firstToken command
  if name ≠ "" ∧ ¬ tab.chatAlwaysRunCommands.contains name then
    { tab with chatAlwaysRunCommands := tab.chatAlwaysRunCommands ++ [name] }
  else tab

/-- The text or the reasoning of a reply goes to the last message where that is a reply. -/
def extend (tab : TerminalTab Host) (text reasoning : String) : TerminalTab Host :=
  match tab.chatHistory.getLast? with
  | some last =>
    if last.role = .assistant then
      { tab with
        chatHistory := tab.chatHistory.dropLast ++ [{ last with
          content := last.content ++ text
          reasoning := last.reasoning ++ reasoning }] }
    else tab
  | none => tab

/-- The output goes to the last exchange with this id that has none yet. -/
def attach (id : Nat) (output : String) : List ChatMessage → Option (List ChatMessage)
  | [] => none
  | message :: rest =>
    match attach id output rest with
    | some attached => some (message :: attached)
    | none =>
      match message.tool with
      | some exchange =>
        if exchange.id = some id ∧ exchange.output = none then
          some ({ message with tool := some { exchange with output := some output } } :: rest)
        else none
      | none => none

/-- The conversation without the errors and replies at its end. -/
def beforeError (history : List ChatMessage) : List ChatMessage :=
  (history.reverse.dropWhile fun message =>
    message.role = .error || message.role = .assistant).reverse

/-- A new pane, which takes the focus. -/
def split (tab : TerminalTab Host) (host : Host) (connected : Bool) : TerminalTab Host :=
  { tab with
    panes := tab.panes ++ [⟨tab.lastPane + 1, host, connected⟩]
    hasPane := List.append_ne_nil_of_right_ne_nil _ (List.cons_ne_nil _ _)
    focused := tab.lastPane + 1
    lastPane := tab.lastPane + 1 }

/-- A pane is closed, but not the last one; its sibling takes over its focus. -/
def closePane (tab : TerminalTab Host) (pane sibling : Nat) : Option (TerminalTab Host) :=
  let remaining := tab.panes.filter (·.handle ≠ pane)
  if hasPane : remaining ≠ [] then
    if tab.panes.any (·.handle = pane) && remaining.any (·.handle = sibling) then
      some { tab with
        panes := remaining
        hasPane := hasPane
        focused := if tab.focused = pane then sibling else tab.focused }
    else none
  else none

/-- A session is up or down. -/
def session (tab : TerminalTab Host) (pane : Nat) (connected : Bool) : TerminalTab Host :=
  { tab with
    panes := tab.panes.map fun one =>
      if one.handle = pane then { one with connected := connected } else one
    hasPane := by
      rw [Ne, List.map_eq_nil_iff]
      exact tab.hasPane }

end TerminalTab

/-! ### Tasks, messages and the log -/

/-- What let a command through to the terminal: nothing yet, its granted name, the judge or the
user. -/
inductive Way
  | proposed
  | granted
  | judged
  | approved
  deriving DecidableEq, Repr

/-- The pane a command was meant for, and its way. -/
structure Origin where
  pane : Nat
  way : Way
  deriving DecidableEq, Repr

inductive Work
  | stream (toolEmitted : Bool)
  | judge (command risk : String) (thoughtSignature : Option String)
  | poll (toolId : Nat)
  deriving DecidableEq, Repr

structure ChatTask where
  id : Nat
  tabId : Nat
  origin : Origin
  work : Work
  deriving DecidableEq, Repr

/-- This stream has proposed its command. -/
def ChatTask.emitted (stream task : ChatTask) : ChatTask :=
  if task = stream then { task with work := .stream true } else task

inductive AiMessage
  | chatStreamChunk (delta : String)
  | chatStreamReasoning (delta : String)
  | chatStreamDone
  | chatError (error : String)
  | chatToolProposed (command risk : String) (thoughtSignature : Option String)
  | chatToolGuardBlocked (command : String) (thoughtSignature : Option String)
  | chatToolExec (command risk : String) (thoughtSignature : Option String)
  | chatToolResult (toolId : Nat) (output : String)

/-- A message on its way to a tab, with the task that said it. -/
structure Envelope where
  sender : Nat
  tabId : Nat
  origin : Origin
  message : AiMessage

/-- What the user does with the conversation of the tab in front. -/
inductive Gesture
  | sendChat (input : String)
  | chatRetry
  | chatToolApprove (command : String)
  | chatToolApproveAlways (command : String)
  | chatToolDeny (command : String)
  | chatResetConversation
  | chatModeChanged (mode : ChatMode)
  | chatStop

/-- A command that was written to a terminal: in which pane and host, what it was meant for, and
what the tab's mode and its list of granted names were. -/
structure Written (Host : Type*) where
  tabId : Nat
  pane : Nat
  host : Host
  command : String
  risk : String
  origin : Origin
  mode : ChatMode
  isGranted : Bool

/-- What happened: a command was written, or a gesture took effect in a tab whose pane in front is
on a host. -/
inductive Event (Host : Type*)
  | wrote (written : Written Host)
  | gestured (tabId : Nat) (host : Host) (gesture : Gesture)

/-- The log has what came last first. -/
structure App (Host : Type*) where
  tabs : Nat → Option (TerminalTab Host)
  activeTab : Option Nat
  aiEnabled : Bool
  tasks : List ChatTask
  mail : List Envelope
  nextId : Nat
  log : List (Event Host)

namespace App

def updateTab (app : App Host) (tabId : Nat) (change : TerminalTab Host → TerminalTab Host) :
    App Host :=
  { app with tabs := Function.update app.tabs tabId ((app.tabs tabId).map change) }

def record (app : App Host) (event : Event Host) : App Host :=
  { app with log := event :: app.log }

/-- A message sent on as a task of its own. -/
def done (app : App Host) (tabId : Nat) (origin : Origin) (message : AiMessage) : App Host :=
  { app with mail := app.mail ++ [⟨app.nextId, tabId, origin, message⟩], nextId := app.nextId + 1 }

/-- What is left of the tasks when the one a tab has the handle of is aborted. -/
def withoutTracked (app : App Host) (tabId : Nat) : List ChatTask :=
  match (app.tabs tabId).bind (·.chatTask) with
  | some handle => app.tasks.filter (·.id ≠ handle)
  | none => app.tasks

def abortChatTaskFor (app : App Host) (tabId : Nat) : App Host :=
  { app with tasks := app.withoutTracked tabId }.updateTab tabId fun tab =>
    { tab with chatTask := none }

/-- A task takes the place of the one the tab has the handle of. -/
def trackChatTaskFor (app : App Host) (tabId : Nat) (origin : Origin) (work : Work) : App Host :=
  let aborted := app.abortChatTaskFor tabId
  let started : App Host := { aborted with
    tasks := aborted.tasks ++ [⟨app.nextId, tabId, origin, work⟩]
    nextId := app.nextId + 1 }
  started.updateTab tabId fun tab => { tab with chatTask := some app.nextId }

/-- A stream over the conversation, which is shown the terminal of the pane in front. -/
def spawnChatStreamFor (app : App Host) (tabId : Nat) (tab : TerminalTab Host) : App Host :=
  (app.updateTab tabId fun tab =>
    { tab.push (.text .assistant "") with chatLoading := true }).trackChatTaskFor tabId
      ⟨tab.active.handle, .proposed⟩ (.stream false)

/-! ### What the handlers do -/

/-- The command is put before the user. -/
def block (app : App Host) (tabId : Nat) (command : String) (thoughtSignature : Option String) :
    App Host :=
  app.updateTab tabId fun tab =>
    { (tab.popIf TerminalTab.isEmptyReply).push (pendingToolBubble command thoughtSignature) with
      chatLoading := false }

def gateInput (tab : TerminalTab Host) (command risk : String) : ToolGateInput where
  mode := tab.chatMode
  allowed := tab.chatAlwaysRunCommands.contains (firstToken command)
  hasChaining := hasShellChaining command
  riskSafe := risk = "safe"
  obviouslyDestructive := isObviouslyDestructive command
  streakExceeded := chatAutoRunStreakMax ≤ tab.chatAutoRunStreak
  alreadyAutoRan := tab.chatAutoRunHistory.contains command

def chatToolProposed (app : App Host) (tabId : Nat) (tab : TerminalTab Host) (origin : Origin)
    (command risk : String) (thoughtSignature : Option String) : App Host :=
  match classifyToolGate (gateInput tab command risk) with
  | .autoExec => app.done tabId { origin with way := .granted }
      (.chatToolExec command risk thoughtSignature)
  | .confirm => app.done tabId origin (.chatToolGuardBlocked command thoughtSignature)
  | .judge => (app.updateTab tabId fun tab => { tab with chatLoading := true }).trackChatTaskFor
      tabId { origin with way := .judged } (.judge command risk thoughtSignature)
  | .prompt => app.block tabId command thoughtSignature

/-- The command is written to the terminal of the pane in front, whichever that is by now. -/
def chatToolExec (app : App Host) (tabId : Nat) (tab : TerminalTab Host) (origin : Origin)
    (command risk : String) (thoughtSignature : Option String) : App Host :=
  if tab.active.connected then
    let toolId := app.nextId
    let written : Written Host :=
      ⟨tabId, tab.active.handle, tab.active.host, command, risk, origin, tab.chatMode,
        tab.chatAlwaysRunCommands.contains (firstToken command)⟩
    let exchange : ToolExchange := ⟨some toolId, command, risk, none, thoughtSignature⟩
    let typed := { app with nextId := app.nextId + 1 }.record (.wrote written)
    (typed.updateTab tabId fun tab =>
      { (tab.count command).push ⟨.tool, "$ " ++ command, "", some exchange⟩ with
        chatLoading := true }).trackChatTaskFor tabId origin (.poll toolId)
  else
    app.updateTab tabId fun tab =>
      { (tab.count command).push
          (.text .system "[terminal session is not connected; command not sent]") with
        chatLoading := false }

def chatToolResult (app : App Host) (tabId : Nat) (tab : TerminalTab Host) (toolId : Nat)
    (output : String) : App Host :=
  match TerminalTab.attach toolId output tab.chatHistory with
  | some history =>
    (app.updateTab tabId fun tab => { tab with chatHistory := history }).spawnChatStreamFor tabId
      tab
  | none => app.updateTab tabId fun tab => { tab with chatLoading := false }

/-- A message is handled; one for a tab that is gone is dropped. -/
def receive (app : App Host) (envelope : Envelope) : App Host :=
  let tabId := envelope.tabId
  match app.tabs tabId with
  | none => app
  | some tab =>
    match envelope.message with
    | .chatStreamChunk delta => app.updateTab tabId (·.extend delta "")
    | .chatStreamReasoning delta => app.updateTab tabId (·.extend "" delta)
    | .chatStreamDone =>
      app.updateTab tabId fun tab => { tab with chatTask := none, chatLoading := false }
    | .chatError error => app.updateTab tabId fun tab =>
        { (tab.popIf TerminalTab.isEmptyReply).push (.text .error error) with
          chatTask := none
          chatLoading := false }
    | .chatToolProposed command risk thoughtSignature =>
      app.chatToolProposed tabId tab envelope.origin command risk thoughtSignature
    | .chatToolGuardBlocked command thoughtSignature => app.block tabId command thoughtSignature
    | .chatToolExec command risk thoughtSignature =>
      app.chatToolExec tabId tab envelope.origin command risk thoughtSignature
    | .chatToolResult toolId output => app.chatToolResult tabId tab toolId output

/-- The signature of the call that waits for the user, where it is this command's. -/
def pendingSignature (tab : TerminalTab Host) (command : String) : Option String :=
  match tab.chatHistory.getLast? with
  | some last =>
    if TerminalTab.isPending command last then last.tool.bind (·.thoughtSignature) else none
  | none => none

/-- The user lets a command run. -/
def approve (app : App Host) (tabId : Nat) (tab : TerminalTab Host) (command : String)
    (change : TerminalTab Host → TerminalTab Host) : App Host :=
  (app.updateTab tabId fun tab =>
    ((change tab).popIf (TerminalTab.isPending command)).resetGuard).done tabId
      ⟨tab.active.handle, .approved⟩ (.chatToolExec command "risky" (pendingSignature tab command))

/-- A gesture in the tab in front. -/
def handle (app : App Host) (tabId : Nat) (tab : TerminalTab Host) (gesture : Gesture) : App Host :=
  let recorded := app.record (.gestured tabId tab.active.host gesture)
  match gesture with
  | .sendChat input =>
    let text := trim input
    if text = "" ∨ ¬ app.aiEnabled then app
    else (recorded.updateTab tabId fun tab =>
      (tab.push (.text .user text)).resetGuard).spawnChatStreamFor tabId tab
  | .chatRetry =>
    let history := TerminalTab.beforeError tab.chatHistory
    if history.isEmpty then
      app.updateTab tabId fun tab => { tab with chatHistory := history, chatLoading := false }
    else (recorded.updateTab tabId fun tab =>
      { tab with chatHistory := history }).spawnChatStreamFor tabId tab
  | .chatToolApprove command => recorded.approve tabId tab command id
  | .chatToolApproveAlways command => recorded.approve tabId tab command (·.grant command)
  | .chatToolDeny command => recorded.updateTab tabId fun tab =>
      { (tab.popIf (TerminalTab.isPending command)).push
          (.text .system ("[user declined to run: " ++ command ++ "]")) with chatLoading := false }
  | .chatResetConversation =>
    (recorded.abortChatTaskFor tabId).updateTab tabId fun tab =>
      { tab.resetGuard with chatLoading := false, chatHistory := [] }
  | .chatModeChanged mode => recorded.updateTab tabId fun tab => { tab with chatMode := mode }
  | .chatStop =>
    (recorded.abortChatTaskFor tabId).updateTab tabId fun tab => { tab with chatLoading := false }

/-- A gesture in the tab in front, if there is one. -/
def gesture (app : App Host) (gesture : Gesture) : App Host :=
  match app.activeTab with
  | none => app
  | some tabId =>
    match app.tabs tabId with
    | none => app
    | some tab => app.handle tabId tab gesture

end App

/-! ### The machine -/

/-- What a stream brings. -/
inductive StreamChunk
  | text (delta : String)
  | reasoning (delta : String)
  | toolUse (command risk : String) (thoughtSignature : Option String)
  | done
  | error (error : String)

inductive Action (Host : Type*)
  | gesture (gesture : Gesture)
  | stream (task : Nat) (chunk : StreamChunk)
  | verdict (task : Nat) (allow : Bool)
  | output (task : Nat) (output : String)
  | deliver (index : Nat)
  | switchTab (tabId : Option Nat)
  | closeTab (tabId : Nat)
  | focusPane (tabId pane : Nat)
  | splitPane (tabId : Nat) (host : Host) (connected : Bool)
  | closePane (tabId pane sibling : Nat)
  | session (tabId pane : Nat) (connected : Bool)
  | hideChat
  | toggleAiEnabled

namespace App

def say (app : App Host) (task : ChatTask) (message : AiMessage) : App Host :=
  { app with mail := app.mail ++ [⟨task.id, task.tabId, task.origin, message⟩] }

def endTask (app : App Host) (task : ChatTask) : App Host :=
  { app with tasks := app.tasks.filter (·.id ≠ task.id) }

/-- A stream brings something. It has proposed a command once at most, and after its end or an error
nothing follows. -/
def stream (app : App Host) (task : ChatTask) (toolEmitted : Bool) :
    StreamChunk → Option (App Host)
  | .text delta => some (app.say task (.chatStreamChunk delta))
  | .reasoning delta => some (app.say task (.chatStreamReasoning delta))
  | .toolUse command risk thoughtSignature =>
    if toolEmitted then none
    else
      let proposed := app.say task (.chatToolProposed command risk thoughtSignature)
      some { proposed with tasks := proposed.tasks.map task.emitted }
  | .done => some ((app.say task .chatStreamDone).endTask task)
  | .error error => some ((app.say task (.chatError error)).endTask task)

def abortActive (app : App Host) : App Host :=
  match app.activeTab with
  | none => app
  | some tabId => (app.abortChatTaskFor tabId).updateTab tabId fun tab =>
      { tab with chatLoading := false }

/-- Every task some tab has the handle of is aborted. -/
def abortAll (app : App Host) : App Host :=
  { app with
    tasks := app.tasks.filter fun task =>
      (app.tabs task.tabId).bind (·.chatTask) ≠ some task.id
    tabs := fun tabId => (app.tabs tabId).map fun tab =>
      { tab with chatTask := none, chatLoading := false } }

def erase (app : App Host) (index : Nat) : App Host := { app with mail := app.mail.eraseIdx index }

def deliver (app : App Host) (index : Nat) : Option (App Host) :=
  match app.mail[index]? with
  | some envelope =>
    if (app.mail.take index).all (·.sender ≠ envelope.sender) then
      some ((app.erase index).receive envelope)
    else none
  | none => none

end App

/-- The tabs, the conversations and the tasks. -/
def assistant : Machine (App Host) (Action Host) where
  step app
    | .gesture gesture => some (app.gesture gesture)
    | .stream id chunk =>
      match app.tasks.find? (·.id = id) with
      | some task =>
        match task.work with
        | .stream toolEmitted => app.stream task toolEmitted chunk
        | .judge _ _ _ | .poll _ => none
      | none => none
    | .verdict id allow =>
      match app.tasks.find? (·.id = id) with
      | some task =>
        match task.work with
        | .judge command risk thoughtSignature =>
          some ((app.say task (if allow then .chatToolExec command risk thoughtSignature
            else .chatToolGuardBlocked command thoughtSignature)).endTask task)
        | .stream _ | .poll _ => none
      | none => none
    | .output id output =>
      match app.tasks.find? (·.id = id) with
      | some task =>
        match task.work with
        | .poll toolId => some ((app.say task (.chatToolResult toolId output)).endTask task)
        | .stream _ | .judge _ _ _ => none
      | none => none
    | .deliver index => app.deliver index
    | .switchTab tabId => some { app with activeTab := tabId }
    | .closeTab tabId =>
      let aborted := app.abortChatTaskFor tabId
      some { aborted with
        tabs := Function.update aborted.tabs tabId none
        activeTab := if app.activeTab = some tabId then none else app.activeTab }
    | .focusPane tabId pane => some (app.updateTab tabId fun tab => { tab with focused := pane })
    | .splitPane tabId host connected => some (app.updateTab tabId (·.split host connected))
    | .closePane tabId pane sibling =>
      match (app.tabs tabId).bind (·.closePane pane sibling) with
      | some closed => some (app.updateTab tabId fun _ => closed)
      | none => none
    | .session tabId pane connected => some (app.updateTab tabId (·.session pane connected))
    | .hideChat => some app.abortActive
    | .toggleAiEnabled =>
      let toggled := { app with aiEnabled := !app.aiEnabled }
      some (if app.aiEnabled then toggled.abortAll else toggled)

/-- A tab nobody has talked in yet. -/
def TerminalTab.Fresh (tab : TerminalTab Host) : Prop :=
  tab.chatHistory = [] ∧ tab.chatAlwaysRunCommands = [] ∧ tab.chatAutoRunHistory = [] ∧
    tab.chatAutoRunStreak = 0 ∧ tab.chatTask = none

/-- An app with some tabs open, before anybody has talked in one. -/
structure App.Initial (app : App Host) : Prop where
  fresh : ∀ tabId, ∀ tab ∈ app.tabs tabId, tab.Fresh
  idle : app.tasks = []
  unread : app.mail = []
  unlogged : app.log = []

/-- A tab with these panes in which nobody has talked yet. -/
def TerminalTab.fresh (panes : List (Pane Host)) (hasPane : panes ≠ []) : TerminalTab Host where
  panes := panes
  hasPane := hasPane
  focused := 0
  lastPane := panes.length
  chatHistory := []
  chatAlwaysRunCommands := []
  chatAutoRunHistory := []
  chatAutoRunStreak := 0
  chatLoading := false
  chatTask := none
  chatMode := .auto

/-- One such tab, in front. -/
def App.opened (panes : List (Pane Host)) (hasPane : panes ≠ []) : App Host where
  tabs tabId := if tabId = 0 then some (.fresh panes hasPane) else none
  activeTab := some 0
  aiEnabled := true
  tasks := []
  mail := []
  nextId := 0
  log := []

theorem App.initial_opened (panes : List (Pane Host)) (hasPane : panes ≠ []) :
    (App.opened panes hasPane).Initial where
  fresh := by
    intro tabId tab isTab
    change tab ∈ (if tabId = 0 then some (TerminalTab.fresh panes hasPane) else none) at isTab
    split at isTab
    · cases isTab
      exact ⟨rfl, rfl, rfl, rfl, rfl⟩
    · cases isTab
  idle := rfl
  unread := rfl
  unlogged := rfl

/-- One tab with one pane. -/
def onePane : App String := .opened [⟨0, "db", true⟩] (List.cons_ne_nil _ _)

end Oryxis.Assistant

/-
This file is the queue runner of the SFTP surface, for one owner of a queue.

An owner has one transfer at a time, with a flag for every slot that says whether a
worker is busy in it. A worker runs on its own and reports with a message, and the
message says which owner and which slot it is for, and no more. A transfer that is
cancelled, fails or is replaced leaves its workers running. Each task carries here
the number of the transfer it was started for, which the code does not keep: it is
what the runs are judged by. The labels and the byte counts, which only the progress
strip reads, are left out.
-/

import Oryxis.Library.Machine
import Oryxis.Sftp.Removal

namespace Oryxis.Transfer

open Library

variable {Client : Type*}

inductive TransferKind
  | upload
  | download
  | duplicateLocal
  | relay

inductive OverwriteAction
  | replace
  | replaceIfDifferent
  | duplicate
  | resume
  | cancel
  deriving DecidableEq, Repr

inductive OverwriteDirection
  | upload
  | download
  deriving DecidableEq, Repr

/-- The question of a name that is taken. One that a drop on a terminal pane raised is answered
elsewhere. -/
structure OverwritePrompt where
  direction : OverwriteDirection
  applyToAll : Bool
  dropUploadPane : Option Nat
  deriving DecidableEq, Repr

structure TransferState (Client : Type*) where
  kind : TransferKind
  queue : List TransferItem
  completed : Nat
  total : Nat
  overwriteDefault : Option OverwriteAction
  pendingConflictItem : Option TransferItem
  pendingConflictSlot : Option Nat
  clients : List Client
  destClient : Option Client
  busySlots : List Bool
  paused : Bool
  dirSlot : Option Nat
  moveSources : Option (List TransferItem)

/-- A fresh transfer over a queue. -/
def TransferState.new (kind : TransferKind) (queue : List TransferItem) (clients : List Client)
    (destClient : Option Client) (slots : Nat) : TransferState Client where
  kind := kind
  queue := queue
  completed := 0
  total := queue.length
  overwriteDefault := none
  pendingConflictItem := none
  pendingConflictSlot := none
  clients := clients
  destClient := destClient
  busySlots := List.replicate slots false
  paused := false
  dirSlot := none
  moveSources := none

def TransferState.moving (transfer : TransferState Client) (sources : List TransferItem) :
    TransferState Client :=
  { transfer with moveSources := some sources }

/-- What gets a queue ready: the uploads, downloads and duplicates of the panes and the sidebar,
and the relay of `startRelay`, which is a move where the sources are to go. -/
inductive Launch (Client : Type*)
  | batch (kind : TransferKind) (queue : List TransferItem) (clients : List Client) (slots : Nat)
  | relay (queue : List TransferItem) (source dest : Client) (moveSource : Bool)

def Launch.queue : Launch Client → List TransferItem
  | .batch _ queue _ _ => queue
  | .relay queue _ _ _ => queue

def Launch.state : Launch Client → TransferState Client
  | .batch kind queue clients slots => .new kind queue clients none slots
  | .relay queue source dest moveSource =>
    let state := TransferState.new .relay queue [source] (some dest) 1
    if moveSource then state.moving state.queue else state

/-! ### The work on one item -/

inductive TransferError
  | slotHasNoClient
  | missingDestinationClient
  | notConnected
  | host (message : String)
  | verifyFailed (message : String)
  | sizeMismatch (src : String) (expected : Nat) (dst : String) (landed : Nat)
  deriving DecidableEq, Repr

/-- What the two hosts say to the requests of one relayed item. -/
structure RelayAnswers where
  createDir : Except String Unit
  listDir : Except String Unit
  relay : Except String Unit
  srcSize : Except String Nat
  dstSize : Except String Nat

def verifyRelayedSize (answers : RelayAnswers) (item : TransferItem) : Except TransferError Unit := do
  let expected ← match item.size with
    | some size => .ok size
    | none => answers.srcSize.mapError .verifyFailed
  let landed ← answers.dstSize.mapError .verifyFailed
  if landed ≠ expected then throw (.sizeMismatch item.src expected item.dst landed)

def doRelayItem (answers : RelayAnswers) (item : TransferItem) (verify : Bool) :
    Except TransferError Unit :=
  if item.isDir then
    match answers.createDir, answers.listDir with
    | .error error, .error _ => .error (.host error)
    | _, _ => .ok ()
  else do
    answers.relay.mapError .host
    if verify then verifyRelayedSize answers item

/-- What a worker does on its own. A duplicate on this machine is one too: the source makes it as
soon as it is started, and its message comes later all the same. -/
inductive Job (Client : Type*)
  | upload (client : Client) (item : TransferItem) (default : Option OverwriteAction) (multi : Bool)
  | download (client : Client) (item : TransferItem) (default : Option OverwriteAction)
      (multi : Bool)
  | relay (source dest : Client) (item : TransferItem) (verify : Bool)
  | duplicateLocal (item : TransferItem)
  | applyOverwrite (direction : OverwriteDirection) (client : Client) (item : TransferItem)
      (action : OverwriteAction)

inductive TransferMessage
  | next
  | itemDone (slot : Nat)
  | conflict (prompt : OverwritePrompt) (item : TransferItem) (slot : Nat)
  | error (error : TransferError) (slot : Nat)
  deriving DecidableEq, Repr

inductive Task (Client : Type*)
  | done (message : TransferMessage)
  | perform (slot : Nat) (job : Job Client)

/-- How a job comes out: what an upload, a download or a copy on this machine comes to, or what
the hosts say to a relay. -/
inductive Outcome
  | done
  | conflict (prompt : OverwritePrompt) (item : TransferItem)
  | failed (error : TransferError)
  | answered (answers : RelayAnswers)

/-- The message a job ends with. -/
def Job.report (slot : Nat) : Job Client → Outcome → Option TransferMessage
  | .relay _ _ item verify, .answered answers =>
    match doRelayItem answers item verify with
    | .ok () => some (.itemDone slot)
    | .error error => some (.error error slot)
  | .relay _ _ _ _, _ => none
  | .upload _ _ _ _, .conflict prompt item => some (.conflict prompt item slot)
  | .download _ _ _ _, .conflict prompt item => some (.conflict prompt item slot)
  | _, .done => some (.itemDone slot)
  | _, .failed error => some (.error error slot)
  | _, _ => none

/-! ### The runner -/

/-- What the runner comes to when it looks for the next item. -/
inductive Next (Client : Type*)
  | wait
  | finalize (moveSources : Option (List TransferItem)) (moveClient : Option Client)
  | start (transfer : TransferState Client) (task : Task Client)

namespace TransferState

/-- The work on an item in a slot. -/
def itemTask (transfer : TransferState Client) (slot : Nat) (item : TransferItem) : Task Client :=
  match transfer.kind with
  | .upload =>
    match transfer.clients[slot]? with
    | none => .done (.error .slotHasNoClient slot)
    | some client =>
      .perform slot (.upload client item transfer.overwriteDefault (decide (1 < transfer.total)))
  | .download =>
    match transfer.clients[slot]? with
    | none => .done (.error .slotHasNoClient slot)
    | some client =>
      .perform slot (.download client item transfer.overwriteDefault (decide (1 < transfer.total)))
  | .relay =>
    match transfer.clients[slot]? with
    | none => .done (.error .slotHasNoClient slot)
    | some source =>
      match transfer.destClient with
      | none => .done (.error .missingDestinationClient slot)
      | some dest => .perform slot (.relay source dest item transfer.moveSources.isSome)
  | .duplicateLocal => .perform slot (.duplicateLocal item)

/-- An item leaves the queue for an idle slot; a directory bars the others until it is there. -/
def startItem (transfer : TransferState Client) (slot : Nat) (item : TransferItem)
    (queue : List TransferItem) : TransferState Client :=
  { transfer with
    queue := queue
    busySlots := transfer.busySlots.set slot true
    dirSlot := if item.isDir then some slot else transfer.dirSlot }

def next (transfer : TransferState Client) : Next Client :=
  if transfer.paused then .wait
  else if transfer.dirSlot.isSome then .wait
  else if transfer.queue.head?.any (·.isDir) && transfer.busySlots.any id then .wait
  else match transfer.busySlots.findIdx? (!·) with
    | none => .wait
    | some slot =>
      match transfer.queue with
      | [] =>
        if transfer.busySlots.all (!·) then .finalize transfer.moveSources transfer.clients.head?
        else .wait
      | item :: queue =>
        let started := transfer.startItem slot item queue
        .start started (started.itemTask slot item)

/-- The slot of a finished item is idle again, and where it was a directory's the barrier lifts. -/
def itemDone (transfer : TransferState Client) (slot : Nat) : TransferState Client :=
  { transfer with
    completed := transfer.completed + 1
    busySlots := transfer.busySlots.set slot false
    dirSlot := if transfer.dirSlot = some slot then none else transfer.dirSlot }

/-- How many times the runner looks for the next item after one is done. -/
def refill (transfer : TransferState Client) (slot : Nat) : Nat :=
  if transfer.dirSlot = some slot then max transfer.busySlots.length 1 else 1

/-- The item is parked until the question is answered. -/
def park (transfer : TransferState Client) (item : TransferItem) (slot : Nat) :
    TransferState Client :=
  { transfer with
    pendingConflictItem := some item
    pendingConflictSlot := some slot
    paused := true
    busySlots := transfer.busySlots.set slot false }

/-- The answer to a question, as far as every answer goes: it is kept for the rest where it is to
be, and nothing is parked any more. -/
def unpark (transfer : TransferState Client) (action : OverwriteAction) (applyToAll : Bool) :
    TransferState Client :=
  { transfer with
    overwriteDefault :=
      if applyToAll && action ≠ .resume then some action else transfer.overwriteDefault
    paused := false
    pendingConflictItem := none
    pendingConflictSlot := none }

end TransferState

/-! ### An owner -/

/-- A task with the number of the transfer it was started for. -/
structure Started (Client : Type*) where
  transfer : Nat
  task : Task Client

/-- An item a job relayed, with what the hosts said. -/
structure Relayed where
  transfer : Nat
  item : TransferItem
  answers : RelayAnswers

/-- Sources that were handed to `removeMovedSources`: of which transfer, what it was launched
with, and what had been relayed by then. -/
structure Handed where
  transfer : Nat
  launched : List TransferItem
  sources : List TransferItem
  relayed : List Relayed

/-- An owner's slot, the question on the screen and the tasks under way. What follows is only
kept for the verdicts: the number of the transfer and what it was launched with, the items relayed
so far, and the sources handed over. -/
structure Owner (Client : Type*) where
  sidebar : Bool
  state : Option (TransferState Client)
  overwritePrompt : Option OverwritePrompt
  tasks : List (Started Client)
  transfer : Nat
  launched : List TransferItem
  relayed : List Relayed
  handed : List Handed

inductive Action (Client : Type*)
  | queueReady (launch : Launch Client)
  | deliver (index : Nat)
  | finish (index : Nat) (outcome : Outcome)
  | cancelTransfer
  | toggleApplyToAll
  | resolveOverwrite (action : OverwriteAction) (paneClient : Option Client)
  | otherPrompt (prompt : Option OverwritePrompt)

namespace Owner

def start (owner : Owner Client) (tasks : List (Task Client)) : Owner Client :=
  { owner with tasks := owner.tasks ++ tasks.map (⟨owner.transfer, ·⟩) }

def nexts (count : Nat) : List (Task Client) := List.replicate count (.done .next)

def queueReady (owner : Owner Client) (launch : Launch Client) : Owner Client :=
  { owner with
    state := some launch.state
    transfer := owner.transfer + 1
    launched := launch.queue }.start (nexts (max launch.state.busySlots.length 1))

/-- The end of a transfer. A move hands over its sources here and nowhere else. -/
def finalize (owner : Owner Client) (moveSources : Option (List TransferItem))
    (moveClient : Option Client) : Owner Client :=
  let ended := { owner with state := none }
  if owner.sidebar then ended
  else match moveSources, moveClient with
    | some sources, some _ =>
      { ended with
        handed := owner.handed ++ [⟨owner.transfer, owner.launched, sources, owner.relayed⟩] }
    | _, _ => ended

def next (owner : Owner Client) : Owner Client :=
  match owner.state with
  | none => owner
  | some transfer =>
    match transfer.next with
    | .wait => owner
    | .finalize moveSources moveClient => owner.finalize moveSources moveClient
    | .start started task => { owner with state := some started }.start [task]

def itemDone (owner : Owner Client) (slot : Nat) : Owner Client :=
  match owner.state with
  | none => owner.start (nexts 1)
  | some transfer =>
    { owner with state := some (transfer.itemDone slot) }.start (nexts (transfer.refill slot))

def conflict (owner : Owner Client) (prompt : OverwritePrompt) (item : TransferItem)
    (slot : Nat) : Owner Client :=
  { owner with
    state := owner.state.map fun transfer => transfer.park item slot
    overwritePrompt := some prompt }

def receive (owner : Owner Client) : TransferMessage → Owner Client
  | .next => owner.next
  | .itemDone slot => owner.itemDone slot
  | .conflict prompt item slot => owner.conflict prompt item slot
  | .error _ _ => { owner with state := none }

/-- The parked item is left out, and with it the rest where that is asked. -/
def skipParked (owner : Owner Client) (transfer : TransferState Client) (slot : Nat)
    (applyToAll : Bool) : Owner Client :=
  { owner with
    state := some (if applyToAll then { transfer with queue := [] } else transfer) }.start
      (.done (.itemDone slot) :: nexts (transfer.busySlots.length - 1))

/-- The answer is applied to the parked item, over the slot's own client where it has one. -/
def applyParked (owner : Owner Client) (transfer : TransferState Client) (slot : Nat)
    (item : TransferItem) (prompt : OverwritePrompt) (action : OverwriteAction)
    (paneClient : Option Client) : Owner Client :=
  match transfer.clients[slot]? <|> paneClient with
  | none => { owner with state := some transfer }.start [.done (.error .notConnected slot)]
  | some client =>
    { owner with
      state := some { transfer with busySlots := transfer.busySlots.set slot true } }.start
        (.perform slot (.applyOverwrite prompt.direction client item action) ::
          nexts (transfer.busySlots.length - 1))

def resolveOverwrite (owner : Owner Client) (action : OverwriteAction)
    (paneClient : Option Client) : Owner Client :=
  match owner.overwritePrompt with
  | none => owner
  | some prompt =>
    let answered := { owner with overwritePrompt := none }
    if prompt.dropUploadPane.isSome then answered
    else match owner.state with
      | none => answered
      | some transfer =>
        let unparked := transfer.unpark action prompt.applyToAll
        match transfer.pendingConflictItem with
        | none => { answered with state := some unparked }
        | some item =>
          let slot := transfer.pendingConflictSlot.getD 0
          if action = .cancel then answered.skipParked unparked slot prompt.applyToAll
          else answered.applyParked unparked slot item prompt action paneClient

/-- What a job that ends has relayed. -/
def record (owner : Owner Client) (transfer : Nat) (job : Job Client) (outcome : Outcome) :
    Owner Client :=
  match job, outcome with
  | .relay _ _ item _, .answered answers =>
    { owner with relayed := owner.relayed ++ [⟨transfer, item, answers⟩] }
  | _, _ => owner

def finish (owner : Owner Client) (index : Nat) (outcome : Outcome) : Option (Owner Client) :=
  match owner.tasks[index]? with
  | some ⟨transfer, .perform slot job⟩ =>
    (job.report slot outcome).map fun message =>
      { owner with tasks := owner.tasks.set index ⟨transfer, .done message⟩ }.record
        transfer job outcome
  | _ => none

def deliver (owner : Owner Client) (index : Nat) : Option (Owner Client) :=
  match owner.tasks[index]? with
  | some ⟨_, .done message⟩ =>
    some ({ owner with tasks := owner.tasks.eraseIdx index }.receive message)
  | _ => none

end Owner

/-- One owner. Tasks end and messages arrive in any order; the question on the screen is one for
all owners, and another may put its own there or take it away. -/
def runner : Machine (Owner Client) (Action Client) where
  step owner
    | .queueReady launch => some (owner.queueReady launch)
    | .deliver index => owner.deliver index
    | .finish index outcome => owner.finish index outcome
    | .cancelTransfer => some { owner with state := none }
    | .toggleApplyToAll => some { owner with
        overwritePrompt := owner.overwritePrompt.map fun prompt =>
          { prompt with applyToAll := !prompt.applyToAll } }
    | .resolveOverwrite action paneClient => some (owner.resolveOverwrite action paneClient)
    | .otherPrompt prompt => some { owner with overwritePrompt := prompt }

/-- An owner that has not transferred anything yet. -/
def Owner.initial (sidebar : Bool) : Owner Client where
  sidebar := sidebar
  state := none
  overwritePrompt := none
  tasks := []
  transfer := 0
  launched := []
  relayed := []
  handed := []

end Oryxis.Transfer

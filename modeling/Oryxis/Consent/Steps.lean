/-
This file is the two sides of a sudo question, one file operation at a time.

The server's side is a call that posts its request, looks where it stands until there
is an outcome, and then withdraws it. The app's side is what one of its tasks does for
a request: claim it, answer it, or come across one of its files in a scan. Each step
is one operation on the folder, so anything may happen to the folder between two of
them. What the code cannot know (whether an operation fails, how old a file is, how
long a call has waited) comes with the step.
-/

import Oryxis.Consent.Requests

namespace Oryxis.Consent

/-! ### The folder -/

inductive Ext
  | request
  | claimed
  | answer
  | tmp (process : Nat)
  deriving DecidableEq, Repr

structure FileName where
  stem : String
  ext : Ext
  deriving DecidableEq, Repr

/-- A plain file, or something else that has the name: whether there is anything at the end of it,
and what one reads there. -/
inductive Entry
  | file (bytes : Bytes)
  | other (there : Bool) (content : Option Bytes)

def Entry.plain : Entry → Bool
  | .file _ => true
  | .other _ _ => false

def Entry.there : Entry → Bool
  | .file _ => true
  | .other there _ => there

def Entry.content : Entry → Option Bytes
  | .file bytes => some bytes
  | .other _ content => content

abbrev Folder := FileName → Option Entry

namespace Folder

def remove (folder : Folder) (name : FileName) : Folder := Function.update folder name none

def put (folder : Folder) (name : FileName) (entry : Entry) : Folder :=
  Function.update folder name (some entry)

def rename (folder : Folder) (source target : FileName) : Option Folder :=
  (folder source).map fun entry => (folder.remove source).put target entry

def read (folder : Folder) (name : FileName) : Option Bytes := (folder name).bind Entry.content

def isThere (folder : Folder) (name : FileName) : Bool := (folder name).any Entry.there

/-- A file is created or written over. Through a link the bytes go where it points. -/
def write (folder : Folder) (name : FileName) (bytes : Bytes) : Folder :=
  match folder name with
  | some (.other _ _) => folder.put name (.other true (some bytes))
  | _ => folder.put name (.file bytes)

end Folder

/-- What comes with a step: whether its operation fails, whether the file is past the age of
debris, whether the request is past its claim window, whether the call has waited long enough or is
cancelled, and whether its vault is locked. -/
structure Choice where
  fails : Bool
  stale : Bool
  expired : Bool
  late : Bool
  cancelled : Bool
  locked : Bool

/-- Nothing comes with the step. -/
def Choice.plain : Choice := ⟨false, false, false, false, false, false⟩

inductive RequestRead
  | bytes (bytes : Bytes)
  | refused
  | failed

def readRequestFile (folder : Folder) (name : FileName) (fails : Bool) : RequestRead :=
  if fails then .failed
  else match folder name with
    | none => .failed
    | some (.other _ _) => .refused
    | some (.file bytes) => if maxRequestBytes < bytes.length then .refused else .bytes bytes

/-! ### The server's call -/

inductive ConsentError
  | notPickedUp
  | refused (reason : Option DenyReason)
  | timedOut
  | badTag
  | vanished
  | cancelled
  | io
  deriving DecidableEq, Repr

abbrev ConsentOutcome := Except ConsentError Decision

/-- Where a call stands: before the operation the stage is named by. -/
inductive AskStage
  | writing
  | placing
  | removingTemp
  | lookingForAnswer
  | lookingForClaim
  | lookingForRequest
  | waiting
  | removingRequest (outcome : ConsentOutcome)
  | removingClaim (outcome : ConsentOutcome)
  | removingAnswer (outcome : ConsentOutcome)
  | returned (outcome : ConsentOutcome)
  deriving DecidableEq

structure Ask where
  process : Nat
  request : SudoRequest
  bytes : Bytes
  stage : AskStage

namespace Ask

/-- A call begins. Without a proper id, and over the size cap, nothing is written. -/
def start (codec : Codec) (process : Nat) (request : SudoRequest) : Ask where
  process := process
  request := request
  bytes := codec.encodeRequest request
  stage :=
    if validId request.id ∧ (codec.encodeRequest request).length ≤ maxRequestBytes then .writing
    else .returned (.error .io)

def file (ask : Ask) (ext : Ext) : FileName := ⟨ask.request.id, ext⟩

/-- What `status` comes to, where the look at a file settles it. -/
def report (ask : Ask) (codec : Codec) (folder : Folder) (choice : Choice) : Option Status :=
  match ask.stage with
  | .lookingForAnswer =>
    if choice.fails then none
    else (folder.read (ask.file .answer)).map fun bytes => .answered (codec.readAnswer bytes)
  | .lookingForClaim => if folder.isThere (ask.file .claimed) then some .claimed else none
  | .lookingForRequest =>
    some (if folder.isThere (ask.file .request) then .posted else .gone)
  | _ => none

/-- What the loop does on a status: wait for the next poll, or withdraw with an outcome. -/
def settle (ask : Ask) (verify : Bytes → Decision → String → Bool) (late : Bool) :
    Status → AskStage
  | .answered answer =>
    if !answer.decision.allows then .removingRequest (.error (.refused answer.reason))
    else if verify ask.bytes answer.decision answer.tag then .removingRequest (.ok answer.decision)
    else .removingRequest (.error .badTag)
  | .posted => if late then .removingRequest (.error .notPickedUp) else .waiting
  | .claimed => if late then .removingRequest (.error .timedOut) else .waiting
  | .gone => .removingRequest (.error .vanished)

def dropFile (folder : Folder) (name : FileName) (fails : Bool) : Folder :=
  if fails then folder else folder.remove name

/-- One operation of `ask`. -/
def advance (ask : Ask) (codec : Codec) (verify : Bytes → Decision → String → Bool)
    (folder : Folder) (choice : Choice) : Option (Folder × AskStage) :=
  match ask.stage with
  | .writing =>
    if choice.fails then some (folder, .removingTemp)
    else some (folder.write (ask.file (.tmp ask.process)) ask.bytes, .placing)
  | .placing =>
    match folder.rename (ask.file (.tmp ask.process)) (ask.file .request), choice.fails with
    | some placed, false => some (placed, .lookingForAnswer)
    | _, _ => some (folder, .removingTemp)
  | .removingTemp =>
    some (dropFile folder (ask.file (.tmp ask.process)) choice.fails, .returned (.error .io))
  | .lookingForAnswer =>
    match ask.report codec folder choice with
    | some status => some (folder, ask.settle verify choice.late status)
    | none => some (folder, .lookingForClaim)
  | .lookingForClaim =>
    match ask.report codec folder choice with
    | some status => some (folder, ask.settle verify choice.late status)
    | none => some (folder, .lookingForRequest)
  | .lookingForRequest =>
    match ask.report codec folder choice with
    | some status => some (folder, ask.settle verify choice.late status)
    | none => none
  | .waiting =>
    if choice.cancelled then some (folder, .removingRequest (.error .cancelled))
    else some (folder, .lookingForAnswer)
  | .removingRequest outcome =>
    some (dropFile folder (ask.file .request) choice.fails, .removingClaim outcome)
  | .removingClaim outcome =>
    some (dropFile folder (ask.file .claimed) choice.fails, .removingAnswer outcome)
  | .removingAnswer outcome =>
    some (dropFile folder (ask.file .answer) choice.fails, .returned outcome)
  | .returned _ => none

end Ask

/-! ### The app's tasks -/

/-- Where a task stands with a request: before the operation the stage is named by. `taking` and
what follows an answer say whether they belong to a scan or to a refusal of the app's own. -/
inductive TaskStage
  | lookingAtRequest
  | taking (scanning : Bool)
  | reading
  | puttingBack
  | removing (ext : Ext)
  | checking (answer : Answer) (refusing : Bool)
  | writing (answer : Answer) (refusing : Bool)
  | placing (answer : Answer) (refusing : Bool)
  | removingTemp (refusing : Bool)
  | scanning (ext : Ext)
  | scanReading
  | done
  deriving DecidableEq, Repr

structure Task where
  process : Nat
  id : String
  stage : TaskStage

/-- What a step tells the rest of the app: a claim came to something, a scan offers a request, or
`answer` is through with an answer. -/
inductive TaskEvent
  | claimed (claimed : Claimed)
  | offered (request : SudoRequest)
  | answered (answer : Answer)

namespace Task

def file (task : Task) (ext : Ext) : FileName := ⟨task.id, ext⟩

def temp (task : Task) : FileName := task.file (.tmp task.process)

/-- One operation of `claim`, `answer`, `refuseUnreadable` or the scan of one entry. -/
def advance (task : Task) (codec : Codec) (folder : Folder) (choice : Choice) :
    Option (Folder × TaskStage × Option TaskEvent) :=
  match task.stage with
  | .lookingAtRequest =>
    match folder (task.file .request), choice.fails with
    | some entry, false =>
      some (folder, if entry.plain then .taking false else .removing .request, none)
    | _, _ => some (folder, .done, none)
  | .taking scanning =>
    match folder.rename (task.file .request) (task.file .claimed), choice.fails with
    | some taken, false =>
      some (taken, if scanning then .checking unreadable true else .reading, none)
    | _, _ => some (folder, .done, none)
  | .reading =>
    match readRequestFile folder (task.file .claimed) choice.fails with
    | .bytes bytes =>
      match codec.readRequest task.id bytes with
      | some request => some (folder, .done, some (.claimed ⟨request, bytes⟩))
      | none => some (folder, .checking unreadable true, none)
    | .refused => some (folder, .removing .claimed, none)
    | .failed => some (folder, .puttingBack, none)
  | .puttingBack =>
    match folder.rename (task.file .claimed) (task.file .request), choice.fails with
    | some back, false => some (back, .done, none)
    | _, _ => some (folder, .done, none)
  | .removing ext => some (Ask.dropFile folder (task.file ext) choice.fails, .done, none)
  | .checking answer refusing =>
    if folder.isThere (task.file .claimed) then some (folder, .writing answer refusing, none)
    else some (folder, .done, some (.answered answer))
  | .writing answer refusing =>
    if choice.fails then some (folder, .removingTemp refusing, none)
    else some (folder.write task.temp (codec.encodeAnswer answer), .placing answer refusing, none)
  | .placing answer refusing =>
    match folder.rename task.temp (task.file .answer), choice.fails with
    | some placed, false => some (placed, .removing .claimed, some (.answered answer))
    | _, _ => some (folder, .removingTemp refusing, none)
  | .removingTemp refusing =>
    some (Ask.dropFile folder task.temp choice.fails,
      if refusing then .removing .claimed else .done, none)
  | .scanning ext =>
    if choice.stale then some (folder, .removing ext, none)
    else some (folder, if ext = .request then .scanReading else .done, none)
  | .scanReading =>
    match readRequestFile folder (task.file .request) choice.fails with
    | .bytes bytes =>
      match codec.readRequest task.id bytes with
      | some request =>
        if choice.expired then some (folder, .removing .request, none)
        else some (folder, .done, some (.offered request))
      | none => some (folder, .taking true, none)
    | .refused => some (folder, .removing .request, none)
    | .failed => some (folder, .done, none)
  | .done => none

end Task

/-! ### What an operation of a task comes to -/

/-- A task that has the claim and may yet come to something with it, or give it back. -/
def TaskStage.live : TaskStage → Bool
  | .reading | .puttingBack => true
  | _ => false

/-- The answer a task is about to write. -/
def TaskStage.answer : TaskStage → Option Answer
  | .checking answer _ | .writing answer _ | .placing answer _ => some answer
  | _ => none

section

variable (task : Task) (codec : Codec) (folder : Folder) (fails : Bool)

inductive Task.Steps : Folder → TaskStage → Option TaskEvent → Prop
  | stays {stage : TaskStage} (live : stage.live → task.stage.live)
      (answer : ∀ answer, stage.answer = some answer →
        task.stage.answer = some answer ∨ answer = unreadable) : Steps folder stage none
  | takes {taken : Folder} (scanning : Bool) (here : task.stage = .taking scanning)
      (renamed : folder.rename (task.file .request) (task.file .claimed) = some taken) :
      Steps taken (if scanning then .checking unreadable true else .reading) none
  | claims {request : SudoRequest} {bytes : Bytes} (here : task.stage = .reading)
      (read : codec.readRequest task.id bytes = some request) :
      Steps folder .done (some (.claimed ⟨request, bytes⟩))
  | putsBack {back : Folder} (here : task.stage = .puttingBack)
      (renamed : folder.rename (task.file .claimed) (task.file .request) = some back) :
      Steps back .done none
  | removes (ext : Ext) (here : task.stage = .removing ext) :
      Steps (Ask.dropFile folder (task.file ext) fails) .done none
  | finds (event : TaskEvent) (unclaimed : ∀ claimed, event ≠ .claimed claimed) :
      Steps folder .done (some event)
  | writes (answer : Answer) (refusing : Bool) (here : task.stage = .writing answer refusing) :
      Steps (folder.write task.temp (codec.encodeAnswer answer)) (.placing answer refusing) none
  | places {placed : Folder} (answer : Answer) (refusing : Bool)
      (here : task.stage = .placing answer refusing)
      (renamed : folder.rename task.temp (task.file .answer) = some placed) :
      Steps placed (.removing .claimed) (some (.answered answer))
  | dropsTemp (refusing : Bool) (here : task.stage = .removingTemp refusing) :
      Steps (Ask.dropFile folder task.temp fails)
        (if refusing then .removing .claimed else .done) none

end

theorem Task.steps_of_advance {task : Task} {codec : Codec} {folder after : Folder}
    {choice : Choice} {stage : TaskStage} {event : Option TaskEvent}
    (advanced : task.advance codec folder choice = some (after, stage, event)) :
    task.Steps codec folder choice.fails after stage event := by
  unfold Task.advance at advanced
  cases here : task.stage with
  | lookingAtRequest =>
    simp only [here] at advanced
    split at advanced
    · cases advanced
      split <;> exact .stays nofun nofun
    · cases advanced
      exact .stays nofun nofun
  | taking scanning =>
    simp only [here] at advanced
    split at advanced
    · rename_i renamed _
      cases advanced
      exact .takes scanning here renamed
    · cases advanced
      exact .stays nofun nofun
  | reading =>
    simp only [here] at advanced
    split at advanced
    · split at advanced
      · rename_i read
        cases advanced
        exact .claims here read
      · cases advanced
        exact .stays nofun fun answer same => .inr (Option.some.inj same).symm
    · cases advanced
      exact .stays nofun nofun
    · cases advanced
      exact .stays (fun _ => congrArg TaskStage.live here) nofun
  | puttingBack =>
    simp only [here] at advanced
    split at advanced
    · rename_i renamed _
      cases advanced
      exact .putsBack here renamed
    · cases advanced
      exact .stays nofun nofun
  | removing ext =>
    rw [here] at advanced
    cases advanced
    exact .removes ext here
  | checking answer refusing =>
    simp only [here] at advanced
    split at advanced
    · cases advanced
      exact .stays nofun fun other same => .inl (here ▸ same)
    · cases advanced
      exact .finds _ nofun
  | writing answer refusing =>
    simp only [here] at advanced
    split at advanced
    · cases advanced
      exact .stays nofun nofun
    · cases advanced
      exact .writes answer refusing here
  | placing answer refusing =>
    simp only [here] at advanced
    split at advanced
    · rename_i renamed _
      cases advanced
      exact .places answer refusing here renamed
    · cases advanced
      exact .stays nofun nofun
  | removingTemp refusing =>
    rw [here] at advanced
    cases advanced
    exact .dropsTemp refusing here
  | scanning ext =>
    simp only [here] at advanced
    split at advanced
    · cases advanced
      exact .stays nofun nofun
    · cases advanced
      split <;> exact .stays nofun nofun
  | scanReading =>
    simp only [here] at advanced
    split at advanced
    · split at advanced
      · split at advanced
        · cases advanced
          exact .stays nofun nofun
        · cases advanced
          exact .finds _ nofun
      · cases advanced
        exact .stays nofun nofun
    · cases advanced
      exact .stays nofun nofun
    · cases advanced
      exact .stays nofun nofun
  | done =>
    rw [here] at advanced
    cases advanced

end Oryxis.Consent

/-
This file proves when a sudo question and its answer are seen by the call that waits
for it.

Until the call withdraws, the request is in one place: it waits in the folder, an app
task or a card holds it, or it is answered. One poll looks for an answer, for a claim
and for a request, in turn. An answer that is there stays, so a poll that begins after
it reports it. But between two looks the request can move past the poll: from where it
has not looked yet to where it has. Where no claim is taken between the last two looks
and none is dropped between the first two, no poll finds the request gone.
-/

import Oryxis.Consent.Exchange
import Oryxis.Library.Picks

namespace Oryxis.Consent

open Library List

/-! ### What is to hold of a run -/

/-- A poll that began when an app was through with an answer reports that answer. -/
def AnswersReach (exchange : Exchange) : Prop :=
  ∀ answer status, (some answer, status) ∈ exchange.reports → status = .answered answer

def NeverGone (exchange : Exchange) : Prop :=
  ∀ report ∈ exchange.reports, report.2 ≠ .gone

/-- No claim is taken while a poll is between its looks at the claim and at the request, and none
is dropped while one is between its looks at the answer and at the claim. -/
def Undisturbed (exchange : Exchange) : ExchangeAction → Prop
  | .task index _ => ∀ running ∈ exchange.tasks[index]?,
      (∀ scanning, running.task.stage = .taking scanning →
        exchange.ask.stage ≠ .lookingForRequest) ∧
      (running.task.stage = .removing .claimed → exchange.ask.stage ≠ .lookingForClaim)
  | _ => True

/-! ### Where the request is -/

/-- A task that has the claim, until it gives it back or has answered and dropped it. -/
def TaskStage.holds : TaskStage → Bool
  | .reading | .puttingBack | .checking _ _ | .writing _ _ | .placing _ _ | .removing .claimed => true
  | _ => false

/-- A task that has not taken the request, or is through. -/
def TaskStage.idles : TaskStage → Bool
  | .lookingAtRequest | .taking _ | .scanning _ | .scanReading | .done => true
  | _ => false

def AskStage.polls : AskStage → Bool
  | .lookingForAnswer | .lookingForClaim | .lookingForRequest | .waiting => true
  | _ => false

/-- The call withdraws or is through. -/
def AskStage.over : AskStage → Bool
  | .removingRequest _ | .removingClaim _ | .removingAnswer _ | .returned _ => true
  | _ => false

def Exchange.holders (exchange : Exchange) : List Running :=
  exchange.tasks.filter fun running => running.task.stage.holds

/-- A task that holds the claim and has not put an answer in place. -/
def Working (codec : Codec) (folder : Folder) (task : Task) : Prop :=
  match task.stage with
  | .reading | .puttingBack | .checking _ _ | .writing _ _ => True
  | .placing answer _ => folder task.temp = some (.file (codec.encodeAnswer answer))
  | _ => False

/-- Who holds the claim, where no answer is in place: a task, or a card at most. -/
inductive Held (codec : Codec) (exchange : Exchange) : Prop
  | working (running : Running) (only : exchange.holders = [running]) (noCard : exchange.cards = [])
      (working : Working codec exchange.folder running.task)
  | asked (noTask : exchange.holders = []) (card : exchange.cards.length ≤ 1)

/-- The files of the request that are there. -/
structure Files (exchange : Exchange) (request claimed answer : Option Bytes) : Prop where
  request : exchange.folder (exchange.file .request) = request.map .file
  claimed : exchange.folder (exchange.file .claimed) = claimed.map .file
  answer : exchange.folder (exchange.file .answer) = answer.map .file

/-- Nobody holds the request. -/
structure Free (exchange : Exchange) : Prop where
  noTask : exchange.holders = []
  noCard : exchange.cards = []

inductive Place (codec : Codec) (exchange : Exchange) : Prop
  | unposted
      (stage : exchange.ask.stage = .writing ∨ exchange.ask.stage = .placing ∧
        exchange.folder (exchange.file (.tmp exchange.ask.process)) = some (.file exchange.ask.bytes))
      (files : Files exchange none none none) (free : Free exchange)
      (unanswered : exchange.answered = none)
  | posted (polls : exchange.ask.stage.polls)
      (files : Files exchange (some exchange.ask.bytes) none none) (free : Free exchange)
      (unanswered : exchange.answered = none)
  | taken (polls : exchange.ask.stage.polls)
      (files : Files exchange none (some exchange.ask.bytes) none) (held : Held codec exchange)
      (unanswered : exchange.answered = none)
  | answering (polls : exchange.ask.stage.polls) (answer : Answer)
      (files : Files exchange none (some exchange.ask.bytes) (some (codec.encodeAnswer answer)))
      (running : Running) (only : exchange.holders = [running]) (noCard : exchange.cards = [])
      (stage : running.task.stage = .removing .claimed) (answered : exchange.answered = some answer)
  | settled (polls : exchange.ask.stage.polls) (answer : Answer)
      (files : Files exchange none none (some (codec.encodeAnswer answer))) (free : Free exchange)
      (answered : exchange.answered = some answer)

structure Standing (codec : Codec) (exchange : Exchange) : Prop where
  sized : exchange.ask.bytes.length ≤ maxRequestBytes
  plain : ∀ name entry, exchange.folder name = some entry → entry.plain
  named : ∀ running ∈ exchange.tasks, running.task.id = exchange.ask.request.id
  idle : ∀ running ∈ exchange.tasks, running.task.stage.holds ∨ running.task.stage.idles
  since : exchange.ask.stage = .lookingForClaim ∨ exchange.ask.stage = .lookingForRequest →
    exchange.since = none
  place : Place codec exchange

/-- What every run keeps: until the call withdraws the request is in its place, and its polls have
reported what they should. -/
structure Attended (codec : Codec) (exchange : Exchange) : Prop where
  standing : exchange.ask.stage.over = false → Standing codec exchange
  reach : AnswersReach exchange

variable {codec : Codec} {verify : Bytes → Decision → String → Bool}

theorem file_ne {exchange : Exchange} {first second : Ext} (ne : first ≠ second) :
    exchange.file first ≠ exchange.file second :=
  fun same => ne (congrArg FileName.ext same)

/-! ### What stays the same -/

theorem Files.of_same {exchange next : Exchange} {request claimed answer : Option Bytes}
    (files : Files exchange request claimed answer) (folder : next.folder = exchange.folder)
    (id : next.ask.request = exchange.ask.request) : Files next request claimed answer := by
  have sameFile : ∀ ext, next.file ext = exchange.file ext := fun ext => by
    show FileName.mk next.ask.request.id ext = _
    rw [id]
    rfl
  refine ⟨?_, ?_, ?_⟩
  · rw [folder, sameFile, files.request]
  · rw [folder, sameFile, files.claimed]
  · rw [folder, sameFile, files.answer]

theorem Held.of_same {exchange next : Exchange} (held : Held codec exchange)
    (folder : next.folder = exchange.folder) (holders : next.holders = exchange.holders)
    (cards : next.cards = exchange.cards) : Held codec next := by
  cases held with
  | working running only noCard working =>
    exact .working running (holders.trans only) (cards.trans noCard) (folder ▸ working)
  | asked noTask card => exact .asked (holders.trans noTask) (cards ▸ card)

theorem Free.of_same {exchange next : Exchange} (free : Free exchange)
    (holders : next.holders = exchange.holders) (cards : next.cards = exchange.cards) : Free next :=
  ⟨holders.trans free.noTask, cards.trans free.noCard⟩

/-- Nothing moves while the call goes from poll to poll, and while nobody takes, gives back, answers
or drops. -/
theorem Place.of_same {exchange next : Exchange} (place : Place codec exchange)
    (folder : next.folder = exchange.folder) (request : next.ask.request = exchange.ask.request)
    (bytes : next.ask.bytes = exchange.ask.bytes)
    (stage : exchange.ask.stage.polls ∧ next.ask.stage.polls ∨ next.ask = exchange.ask)
    (holders : next.holders = exchange.holders) (cards : next.cards = exchange.cards)
    (answered : next.answered = exchange.answered) : Place codec next := by
  have polls : exchange.ask.stage.polls → next.ask.stage.polls := fun before => by
    rcases stage with ⟨-, after⟩ | same
    · exact after
    · rw [same]
      exact before
  cases place with
  | unposted posting files free unanswered =>
    rcases stage with ⟨polls, -⟩ | same
    · rcases posting with writing | ⟨placing, -⟩
      · rw [writing] at polls
        cases polls
      · rw [placing] at polls
        cases polls
    · refine .unposted ?_ (files.of_same folder request) (free.of_same holders cards)
        (answered.trans unanswered)
      rw [show next.file = exchange.file from funext fun ext => by
        show next.ask.file ext = _
        rw [same]
        rfl, same, folder]
      exact posting
  | posted before files free unanswered =>
    exact .posted (polls before) (bytes ▸ files.of_same folder request)
      (free.of_same holders cards) (answered.trans unanswered)
  | taken before files held unanswered =>
    exact .taken (polls before) (bytes ▸ files.of_same folder request)
      (held.of_same folder holders cards) (answered.trans unanswered)
  | answering before answer files running only noCard dropping isAnswered =>
    exact .answering (polls before) answer (bytes ▸ files.of_same folder request) running
      (holders.trans only) (cards.trans noCard) dropping (answered.trans isAnswered)
  | settled before answer files free isAnswered =>
    exact .settled (polls before) answer (files.of_same folder request)
      (free.of_same holders cards) (answered.trans isAnswered)

/-! ### A step of a task -/

def Plain (folder : Folder) : Prop := ∀ name entry, folder name = some entry → entry.plain

variable {folder : Folder}

theorem Plain.remove (plain : Plain folder) (name : FileName) :
    Plain (folder.remove name) := by
  intro other entry found
  by_cases same : other = name
  · rw [same, Folder.remove_self] at found
    cases found
  · rw [Folder.remove_of_ne same] at found
    exact plain other entry found

theorem Plain.put (plain : Plain folder) (name : FileName) {entry : Entry} (isPlain : entry.plain) :
    Plain (folder.put name entry) := by
  intro other found isFound
  by_cases same : other = name
  · rw [same, Folder.put_self] at isFound
    cases isFound
    exact isPlain
  · rw [Folder.put_of_ne _ same] at isFound
    exact plain other found isFound

theorem Plain.rename {renamed : Folder} {source target : FileName} (plain : Plain folder)
    (isRenamed : folder.rename source target = some renamed) : Plain renamed := by
  obtain ⟨entry, found, rfl⟩ := Option.map_eq_some_iff.mp isRenamed
  exact (plain.remove source).put target (plain source entry found)

theorem Plain.write (plain : Plain folder) (name : FileName) (bytes : Bytes) :
    Plain (folder.write name bytes) := by
  have isPut : folder.write name bytes = folder.put name (.file bytes) := by
    unfold Folder.write
    split
    · rename_i other
      exact absurd (plain _ _ other) Bool.false_ne_true
    · rfl
  rw [isPut]
  exact plain.put name rfl

theorem not_holds_of_idles {stage : TaskStage} (idles : stage.idles) : stage.holds = false := by
  cases stage with
  | lookingAtRequest | taking _ | scanning _ | scanReading | done => rfl
  | reading | puttingBack | removing _ | checking _ _ | writing _ _ | placing _ _
  | removingTemp _ => cases idles

/-- The exchange with a task in another stage. -/
def Exchange.withStage (exchange : Exchange) (index : Nat) (running : Running)
    (stage : TaskStage) : List Running :=
  exchange.tasks.set index { running with task := { running.task with stage := stage } }

section

variable {exchange next : Exchange} {index : Nat} {running : Running} {stage : TaskStage}

/-- The tasks after a step of one of them. -/
theorem Standing.tasks (standing : Standing codec exchange)
    (found : exchange.tasks[index]? = some running) (kind : stage.holds ∨ stage.idles) :
    (∀ one ∈ exchange.withStage index running stage, one.task.id = exchange.ask.request.id) ∧
      ∀ one ∈ exchange.withStage index running stage,
        one.task.stage.holds ∨ one.task.stage.idles := by
  constructor
  · intro one member
    rcases mem_or_eq_of_mem_set member with old | rfl
    · exact standing.named one old
    · exact standing.named running (mem_of_getElem? found)
  · intro one member
    rcases mem_or_eq_of_mem_set member with old | rfl
    · exact standing.idle one old
    · exact kind

/-- A step of a task, once the place of the request after it is known. -/
theorem Standing.of_step (standing : Standing codec exchange)
    (found : exchange.tasks[index]? = some running) (kind : stage.holds ∨ stage.idles)
    (ask : next.ask = exchange.ask) (since : next.since = exchange.since)
    (tasks : next.tasks = exchange.withStage index running stage) (plain : Plain next.folder)
    (place : Place codec next) : Standing codec next where
  sized := ask ▸ standing.sized
  plain := plain
  named := by
    rw [tasks, ask]
    exact (standing.tasks found kind).1
  idle := by
    rw [tasks]
    exact (standing.tasks found kind).2
  since := by
    rw [ask, since]
    exact standing.since
  place := place

/-- A task that has not taken the request goes on without it. -/
theorem Standing.idle_step (standing : Standing codec exchange)
    (found : exchange.tasks[index]? = some running) (idles : running.task.stage.idles)
    (stillIdles : stage.idles) (tasks : next.tasks = exchange.withStage index running stage)
    (folder : next.folder = exchange.folder) (ask : next.ask = exchange.ask)
    (cards : next.cards = exchange.cards) (answered : next.answered = exchange.answered)
    (since : next.since = exchange.since) : Standing codec next := by
  have holders : next.holders = exchange.holders := by
    show next.tasks.filter _ = exchange.tasks.filter _
    rw [tasks]
    exact filter_set_of_not found (not_holds_of_idles idles) (not_holds_of_idles stillIdles)
  refine standing.of_step found (.inr stillIdles) ask since tasks (folder ▸ standing.plain) ?_
  exact standing.place.of_same folder (ask ▸ rfl) (ask ▸ rfl) (.inr ask) holders cards answered

/-- A task that holds the claim is the only one. -/
theorem Standing.held_by (standing : Standing codec exchange)
    (found : exchange.tasks[index]? = some running) (holds : running.task.stage.holds) :
    exchange.holders = [running] ∧ exchange.cards = [] ∧ exchange.ask.stage.polls ∧
      ((Files exchange none (some exchange.ask.bytes) none ∧ exchange.answered = none ∧
          Working codec exchange.folder running.task) ∨
        ∃ answer, Files exchange none (some exchange.ask.bytes) (some (codec.encodeAnswer answer)) ∧
          running.task.stage = .removing .claimed ∧ exchange.answered = some answer) := by
  have member : running ∈ exchange.holders :=
    mem_filter.mpr ⟨mem_of_getElem? found, holds⟩
  cases standing.place with
  | unposted _ _ free _ =>
    rw [free.noTask] at member
    cases member
  | posted _ _ free _ =>
    rw [free.noTask] at member
    cases member
  | taken polls files held unanswered =>
    cases held with
    | working other only noCard working =>
      rw [only] at member
      obtain rfl := mem_singleton.mp member
      exact ⟨only, noCard, polls, .inl ⟨files, unanswered, working⟩⟩
    | asked noTask card =>
      rw [noTask] at member
      cases member
  | answering polls answer files other only noCard dropping answered =>
    rw [only] at member
    obtain rfl := mem_singleton.mp member
    exact ⟨only, noCard, polls, .inr ⟨answer, files, dropping, answered⟩⟩
  | settled _ _ _ free _ =>
    rw [free.noTask] at member
    cases member

/-- Until it drops the claim, a task that holds it is working. -/
theorem Standing.working (standing : Standing codec exchange)
    (found : exchange.tasks[index]? = some running) (holds : running.task.stage.holds)
    (keeps : running.task.stage ≠ .removing .claimed) :
    exchange.holders = [running] ∧ exchange.cards = [] ∧ exchange.ask.stage.polls ∧
      Files exchange none (some exchange.ask.bytes) none ∧ exchange.answered = none ∧
      Working codec exchange.folder running.task := by
  obtain ⟨only, noCard, polls, ⟨files, unanswered, working⟩ | ⟨_, _, dropping, _⟩⟩ :=
    standing.held_by found holds
  · exact ⟨only, noCard, polls, files, unanswered, working⟩
  · exact absurd dropping keeps

/-- The holders after the only one goes on. -/
theorem holders_of_only (found : exchange.tasks[index]? = some running)
    (holds : running.task.stage.holds) (only : exchange.holders = [running])
    (tasks : next.tasks = exchange.withStage index running stage) :
    next.holders = if stage.holds then
      [{ running with task := { running.task with stage := stage } }] else [] := by
  show next.tasks.filter _ = _
  rw [tasks]
  exact (filter_set_of_only found holds only _).2

/-- A task that has the claim works on. -/
theorem Standing.work_step (standing : Standing codec exchange)
    (found : exchange.tasks[index]? = some running) (holds : running.task.stage.holds)
    (keeps : running.task.stage ≠ .removing .claimed) (stillHolds : stage.holds)
    (ask : next.ask = exchange.ask) (since : next.since = exchange.since)
    (tasks : next.tasks = exchange.withStage index running stage) (plain : Plain next.folder)
    (cards : next.cards = exchange.cards) (answered : next.answered = exchange.answered)
    (files : ∀ ext ∈ [Ext.request, .claimed, .answer],
      next.folder (exchange.file ext) = exchange.folder (exchange.file ext))
    (working : Working codec next.folder { running.task with stage := stage }) :
    Standing codec next := by
  obtain ⟨only, noCard, polls, before, unanswered, -⟩ := standing.working found holds keeps
  have sameFile : next.file = exchange.file := funext fun ext => by
    show next.ask.file ext = _
    rw [ask]
    rfl
  have holders := holders_of_only found holds only tasks
  rw [if_pos stillHolds] at holders
  refine standing.of_step found (.inl stillHolds) ask since tasks plain ?_
  refine .taken (ask ▸ polls) ⟨?_, ?_, ?_⟩ (.working _ holders (cards.trans noCard) working)
    (answered.trans unanswered)
  · rw [sameFile, files _ (by decide), before.request]
  · rw [sameFile, files _ (by decide), before.claimed, ask]
  · rw [sameFile, files _ (by decide), before.answer]

/-- A task takes the request. -/
theorem Standing.take (standing : Standing codec exchange) {taken : Folder}
    (found : exchange.tasks[index]? = some running) (idles : running.task.stage.idles)
    (isTaken : exchange.folder.rename (exchange.file .request) (exchange.file .claimed) = some taken)
    (starts : stage = .reading ∨ stage = .checking unreadable true)
    (isNext : next = { exchange with
      folder := taken
      tasks := exchange.withStage index running stage }) : Standing codec next := by
  have holds : stage.holds := by
    rcases starts with rfl | rfl <;> rfl
  obtain ⟨claimed, request, wasThere, rest⟩ := Folder.rename_spec isTaken (file_ne nofun)
  subst isNext
  refine standing.of_step found (.inl holds) rfl rfl rfl
    (Plain.rename standing.plain isTaken) ?_
  have missing : ∀ claimed answer, Files exchange none claimed answer → False :=
    fun claimed answer files => by
      rw [files.request] at wasThere
      cases wasThere
  cases standing.place with
  | unposted _ files _ _ => exact (missing _ _ files).elim
  | taken _ files _ _ => exact (missing _ _ files).elim
  | answering _ _ files _ _ _ _ _ => exact (missing _ _ files).elim
  | settled _ _ files _ _ => exact (missing _ _ files).elim
  | posted polls files free unanswered =>
    have only := filter_set_of_none found free.noTask
      (show (fun one : Running => one.task.stage.holds)
        { running with task := { running.task with stage := stage } } = true from holds)
    refine .taken polls ⟨request, ?_, ?_⟩ (.working _ only free.noCard ?_) unanswered
    · exact claimed.trans files.request
    · exact (rest (exchange.file .answer) (file_ne nofun) (file_ne nofun)).trans files.answer
    · rcases starts with rfl | rfl <;> trivial

/-- A task gives the claim back. -/
theorem Standing.putBack (standing : Standing codec exchange) {back : Folder}
    (found : exchange.tasks[index]? = some running) (here : running.task.stage = .puttingBack)
    (isBack : exchange.folder.rename (exchange.file .claimed) (exchange.file .request) = some back)
    (isNext : next = { exchange with
      folder := back
      tasks := exchange.withStage index running .done }) : Standing codec next := by
  have holds : running.task.stage.holds := by
    rw [here]
    rfl
  obtain ⟨only, noCard, polls, files, unanswered, -⟩ :=
    standing.working found holds (by rw [here]; nofun)
  obtain ⟨request, claimed, -, rest⟩ := Folder.rename_spec isBack (file_ne nofun)
  have holders : next.holders = _ := holders_of_only found holds only (by rw [isNext])
  subst isNext
  refine standing.of_step found (.inr rfl) rfl rfl rfl (Plain.rename standing.plain isBack) ?_
  refine .posted polls ⟨request.trans files.claimed, claimed, ?_⟩ ⟨holders, noCard⟩ unanswered
  exact (rest (exchange.file .answer) (file_ne nofun) (file_ne nofun)).trans files.answer

/-- The claim comes to something: a card holds it now. -/
theorem Standing.claim (standing : Standing codec exchange) {claimed : Claimed}
    (found : exchange.tasks[index]? = some running) (here : running.task.stage = .reading)
    (isNext : next = { exchange with
      tasks := exchange.withStage index running .done }.observe running (some (.claimed claimed))) :
    Standing codec next := by
  have holds : running.task.stage.holds := by
    rw [here]
    rfl
  obtain ⟨only, noCard, polls, files, unanswered, -⟩ :=
    standing.working found holds (by rw [here]; nofun)
  have holders : next.holders = _ := holders_of_only found holds only (by rw [isNext]; rfl)
  subst isNext
  refine standing.of_step found (.inr rfl) rfl rfl rfl standing.plain ?_
  refine .taken polls (files.of_same rfl rfl) (.asked holders ?_) unanswered
  show (if exchange.cards.any _ then exchange.cards else exchange.cards ++ [_]).length ≤ 1
  rw [noCard]
  exact Nat.le_refl 1

/-- An answer is put in place. -/
theorem Standing.place_answer (standing : Standing codec exchange) {placed : Folder}
    {answer : Answer} {refusing : Bool} (found : exchange.tasks[index]? = some running)
    (here : running.task.stage = .placing answer refusing)
    (isPlaced : exchange.folder.rename running.task.temp (exchange.file .answer) = some placed)
    (isNext : next = { exchange with
      folder := placed
      tasks := exchange.withStage index running (.removing .claimed)
      answered := some answer }) : Standing codec next := by
  have holds : running.task.stage.holds := by
    rw [here]
    rfl
  obtain ⟨only, noCard, polls, files, -, working⟩ :=
    standing.working found holds (by rw [here]; nofun)
  have temp : exchange.folder running.task.temp = some (.file (codec.encodeAnswer answer)) := by
    unfold Working at working
    rw [here] at working
    exact working
  have isTemp : running.task.temp = exchange.file (.tmp running.task.process) :=
    congrArg (FileName.mk · _) (standing.named running (mem_of_getElem? found))
  rw [isTemp] at isPlaced temp
  obtain ⟨isAnswer, -, -, rest⟩ := Folder.rename_spec isPlaced (file_ne nofun)
  have holders : next.holders = _ := holders_of_only found holds only (by rw [isNext])
  subst isNext
  refine standing.of_step found (.inl rfl) rfl rfl rfl (Plain.rename standing.plain isPlaced) ?_
  refine .answering polls answer ⟨?_, ?_, isAnswer.trans temp⟩ _ holders noCard rfl rfl
  · exact (rest (exchange.file .request) (file_ne nofun) (file_ne nofun)).trans files.request
  · exact (rest (exchange.file .claimed) (file_ne nofun) (file_ne nofun)).trans files.claimed

/-- The claim is dropped when the answer is in place. -/
theorem Standing.drop_claim (standing : Standing codec exchange)
    (found : exchange.tasks[index]? = some running)
    (here : running.task.stage = .removing .claimed)
    (isNext : next = { exchange with
      folder := exchange.folder.remove (exchange.file .claimed)
      tasks := exchange.withStage index running .done }) : Standing codec next := by
  have holds : running.task.stage.holds := by
    rw [here]
    rfl
  obtain ⟨only, noCard, polls, ⟨-, -, working⟩ | ⟨answer, files, -, answered⟩⟩ :=
    standing.held_by found holds
  · unfold Working at working
    rw [here] at working
    exact working.elim
  have holders : next.holders = _ := holders_of_only found holds only (by rw [isNext])
  subst isNext
  refine standing.of_step found (.inr rfl) rfl rfl rfl (Plain.remove standing.plain _) ?_
  refine .settled polls answer ⟨?_, Folder.remove_self .., ?_⟩ ⟨holders, noCard⟩ answered
  · have ne : exchange.file .request ≠ exchange.file .claimed := file_ne nofun
    exact (Folder.remove_of_ne ne).trans files.request
  · have ne : exchange.file .answer ≠ exchange.file .claimed := file_ne nofun
    exact (Folder.remove_of_ne ne).trans files.answer

/-- The request's file, where there is one, is the one the call posted. -/
theorem Standing.request (standing : Standing codec exchange) :
    exchange.folder (exchange.file .request) = none ∨
      exchange.folder (exchange.file .request) = some (.file exchange.ask.bytes) := by
  cases standing.place with
  | unposted _ files _ _ => exact .inl files.request
  | taken _ files _ _ => exact .inl files.request
  | answering _ _ files _ _ _ _ _ => exact .inl files.request
  | settled _ _ files _ _ => exact .inl files.request
  | posted _ files _ _ => exact .inr files.request

/-- A request file that is there is within the cap. -/
theorem Standing.readRequestFile_ne_refused (standing : Standing codec exchange) {ext : Ext}
    (posted : exchange.folder (exchange.file ext) = none ∨
      exchange.folder (exchange.file ext) = some (.file exchange.ask.bytes)) (fails : Bool) :
    readRequestFile exchange.folder (exchange.file ext) fails ≠ .refused := by
  unfold readRequestFile
  cases fails with
  | true => nofun
  | false =>
    rcases posted with missing | isThere
    · rw [missing]
      nofun
    · rw [isThere, if_neg Bool.false_ne_true]
      dsimp only
      rw [if_neg (Nat.not_lt.mpr standing.sized)]
      nofun

theorem Standing.task_step (standing : Standing codec exchange) {choice : Choice}
    (found : exchange.tasks[index]? = some running)
    (reliable : choice.fails = true → running.task.stage.reads)
    (inTime : choice.stale = false ∧ choice.expired = false) {folder : Folder}
    {event : Option TaskEvent}
    (advanced : running.task.advance codec exchange.folder choice = some (folder, stage, event))
    (isNext : next = { exchange with
      folder := folder
      tasks := exchange.withStage index running stage }.observe running event) :
    Standing codec next := by
  have named : running.task.file = exchange.file := funext fun ext =>
    congrArg (FileName.mk · ext) (standing.named running (mem_of_getElem? found))
  have works : running.task.stage.reads = false → choice.fails = false := by
    intro reads
    cases fails : choice.fails with
    | false => rfl
    | true => rw [reliable fails] at reads; cases reads
  unfold Task.advance at advanced
  rw [named] at advanced
  cases here : running.task.stage with
  | lookingAtRequest =>
    simp only [here] at advanced
    split at advanced
    · rename_i entry isThere _
      cases advanced
      rw [if_pos (standing.plain _ _ isThere)] at isNext
      subst isNext
      exact standing.idle_step found (by rw [here]; rfl) rfl rfl rfl rfl rfl rfl rfl
    · cases advanced
      subst isNext
      exact standing.idle_step found (by rw [here]; rfl) rfl rfl rfl rfl rfl rfl rfl
  | taking scanning =>
    simp only [here] at advanced
    split at advanced
    · rename_i taken isTaken _
      cases advanced
      refine standing.take found (by rw [here]; rfl) isTaken ?_ isNext
      cases scanning with
      | true => exact .inr rfl
      | false => exact .inl rfl
    · cases advanced
      subst isNext
      exact standing.idle_step found (by rw [here]; rfl) rfl rfl rfl rfl rfl rfl rfl
  | reading =>
    have holds : running.task.stage.holds := by
      rw [here]
      rfl
    have keeps : running.task.stage ≠ .removing .claimed := by
      rw [here]
      nofun
    obtain ⟨-, -, -, files, -, -⟩ := standing.working found holds keeps
    simp only [here] at advanced
    split at advanced
    · split at advanced
      · cases advanced
        exact standing.claim found here isNext
      · cases advanced
        subst isNext
        exact standing.work_step found holds keeps rfl rfl rfl rfl standing.plain rfl rfl
          (fun _ _ => rfl) trivial
    · rename_i refused
      exact absurd refused
        (standing.readRequestFile_ne_refused (.inr files.claimed) choice.fails)
    · cases advanced
      subst isNext
      exact standing.work_step found holds keeps rfl rfl rfl rfl standing.plain rfl rfl
        (fun _ _ => rfl) trivial
  | puttingBack =>
    have holds : running.task.stage.holds := by
      rw [here]
      rfl
    obtain ⟨-, -, -, files, -, -⟩ := standing.working found holds (by rw [here]; nofun)
    simp only [here] at advanced
    split at advanced
    · rename_i back isBack _
      cases advanced
      exact standing.putBack found here isBack isNext
    · rename_i notBack
      have back := Folder.rename_eq_some files.claimed (exchange.file .request)
      exact absurd (works (by rw [here]; rfl)) (notBack _ back)
  | removing ext =>
    have holds : running.task.stage.holds := by
      rcases standing.idle running (mem_of_getElem? found) with holds | idles
      · exact holds
      · rw [here] at idles
        cases idles
    rw [here] at holds
    cases ext with
    | request | answer | tmp process => cases holds
    | claimed =>
      rw [here, works (by rw [here]; rfl)] at advanced
      cases advanced
      exact standing.drop_claim found here isNext
  | checking answer refusing =>
    have holds : running.task.stage.holds := by
      rw [here]
      rfl
    have keeps : running.task.stage ≠ .removing .claimed := by
      rw [here]
      nofun
    obtain ⟨-, -, -, files, -, -⟩ := standing.working found holds keeps
    have isThere : exchange.folder.isThere (exchange.file .claimed) = true :=
      congrArg (Option.any Entry.there) files.claimed
    simp only [here] at advanced
    rw [if_pos isThere] at advanced
    cases advanced
    subst isNext
    exact standing.work_step found holds keeps rfl rfl rfl rfl standing.plain rfl rfl
      (fun _ _ => rfl) trivial
  | writing answer refusing =>
    have holds : running.task.stage.holds := by
      rw [here]
      rfl
    have keeps : running.task.stage ≠ .removing .claimed := by
      rw [here]
      nofun
    have isTemp : running.task.temp = exchange.file (.tmp running.task.process) :=
      congrFun named _
    rw [here, works (by rw [here]; rfl)] at advanced
    cases advanced
    subst isNext
    refine standing.work_step found holds keeps rfl rfl rfl rfl
      (Plain.write standing.plain _ _) rfl rfl (fun ext isOne => ?_) ?_
    · refine Folder.write_of_ne _ ?_
      rw [isTemp]
      refine file_ne fun isTmp => ?_
      rw [isTmp] at isOne
      simp at isOne
    · exact Folder.write_self _ fun entry isThere => standing.plain _ entry isThere
  | placing answer refusing =>
    have holds : running.task.stage.holds := by
      rw [here]
      rfl
    obtain ⟨-, -, -, -, -, working⟩ := standing.working found holds (by rw [here]; nofun)
    simp only [here] at advanced
    split at advanced
    · rename_i placed isPlaced _
      cases advanced
      exact standing.place_answer found here isPlaced isNext
    · rename_i notPlaced
      unfold Working at working
      rw [here] at working
      have placed := Folder.rename_eq_some working (exchange.file .answer)
      exact absurd (works (by rw [here]; rfl)) (notPlaced _ placed)
  | removingTemp refusing =>
    rcases standing.idle running (mem_of_getElem? found) with holds | idles
    · rw [here] at holds
      cases holds
    · rw [here] at idles
      cases idles
  | scanning ext =>
    simp only [here] at advanced
    rw [inTime.1, if_neg Bool.false_ne_true] at advanced
    cases advanced
    subst isNext
    refine standing.idle_step found (by rw [here]; rfl) ?_ rfl rfl rfl rfl rfl rfl
    split <;> rfl
  | scanReading =>
    simp only [here] at advanced
    split at advanced
    · split at advanced
      · rw [inTime.2, if_neg Bool.false_ne_true] at advanced
        cases advanced
        subst isNext
        exact standing.idle_step found (by rw [here]; rfl) rfl rfl rfl rfl rfl rfl rfl
      · cases advanced
        subst isNext
        exact standing.idle_step found (by rw [here]; rfl) rfl rfl rfl rfl rfl rfl rfl
    · rename_i refused
      exact absurd refused (standing.readRequestFile_ne_refused standing.request choice.fails)
    · cases advanced
      subst isNext
      exact standing.idle_step found (by rw [here]; rfl) rfl rfl rfl rfl rfl rfl rfl
  | done =>
    rw [here] at advanced
    cases advanced

end

/-! ### A step of the call -/

section

variable {exchange next : Exchange}

/-- The call goes on with its polls. -/
theorem Standing.poll_step (standing : Standing codec exchange) {stage : AskStage}
    (before : exchange.ask.stage.polls) (after : stage.polls)
    (folder : next.folder = exchange.folder) (ask : next.ask = { exchange.ask with stage := stage })
    (tasks : next.tasks = exchange.tasks) (cards : next.cards = exchange.cards)
    (answered : next.answered = exchange.answered)
    (since : stage = .lookingForClaim ∨ stage = .lookingForRequest → next.since = none) :
    Standing codec next where
  sized := by
    rw [ask]
    exact standing.sized
  plain := folder ▸ standing.plain
  named := by
    rw [tasks, ask]
    exact standing.named
  idle := tasks ▸ standing.idle
  since := by
    rw [ask]
    exact since
  place := by
    refine standing.place.of_same folder ?_ ?_ (.inl ⟨before, ?_⟩) ?_ cards answered
    · rw [ask]
    · rw [ask]
    · rw [ask]
      exact after
    · show next.tasks.filter _ = _
      rw [tasks]
      rfl

/-- What a look for an answer finds while the call polls. -/
theorem Standing.answer (standing : Standing codec exchange)
    (polls : exchange.ask.stage.polls) :
    (exchange.folder.read (exchange.file .answer) = none ∧ exchange.answered = none) ∨
      ∃ answer, exchange.folder.read (exchange.file .answer) = some (codec.encodeAnswer answer) ∧
        exchange.answered = some answer := by
  have read : ∀ {request claimed answer}, Files exchange request claimed answer →
      exchange.folder.read (exchange.file .answer) = answer := by
    intro request claimed answer files
    rw [Folder.read, files.answer]
    cases answer <;> rfl
  cases standing.place with
  | unposted _ files _ unanswered => exact .inl ⟨read files, unanswered⟩
  | posted _ files _ unanswered => exact .inl ⟨read files, unanswered⟩
  | taken _ files _ unanswered => exact .inl ⟨read files, unanswered⟩
  | answering _ answer files _ _ _ _ answered => exact .inr ⟨answer, read files, answered⟩
  | settled _ answer files _ answered => exact .inr ⟨answer, read files, answered⟩

variable {choice : Choice}

theorem report_of_not_looking (folder : Folder) (ask : Ask)
    (looks : ask.stage ≠ .lookingForAnswer ∧ ask.stage ≠ .lookingForClaim ∧
      ask.stage ≠ .lookingForRequest) : ask.report codec folder choice = none := by
  unfold Ask.report
  split
  · rename_i here
    exact absurd here looks.1
  · rename_i here
    exact absurd here looks.2.1
  · rename_i here
    exact absurd here looks.2.2
  · rfl

theorem AnswersReach.append {reports : List (Option Answer × Status)}
    (reach : AnswersReach exchange) (reported : next.reports = exchange.reports ++ reports)
    (reaches : ∀ answer status, (some answer, status) ∈ reports → status = .answered answer) :
    AnswersReach next := by
  intro answer status member
  rw [reported] at member
  rcases mem_append.mp member with old | new
  · exact reach answer status old
  · exact reaches answer status new

theorem Attended.call_over (attended : Attended codec exchange) (ended : exchange.ask.stage.over)
    (advanced : exchange.advanceCall codec verify choice = some next) :
    Attended codec next := by
  unfold Exchange.advanceCall at advanced
  obtain ⟨⟨folder, stage⟩, stepped, rfl⟩ := Option.map_eq_some_iff.mp advanced
  have silent : exchange.ask.report codec exchange.folder choice = none := by
    refine report_of_not_looking _ _ ⟨?_, ?_, ?_⟩ <;>
    · intro here
      rw [here] at ended
      cases ended
  constructor
  · intro notOver
    unfold Ask.advance at stepped
    cases here : exchange.ask.stage with
    | removingRequest outcome | removingClaim outcome | removingAnswer outcome =>
      rw [here] at stepped
      cases stepped
      cases notOver
    | returned outcome =>
      rw [here] at stepped
      cases stepped
    | writing | placing | removingTemp | lookingForAnswer | lookingForClaim | lookingForRequest
    | waiting =>
      rw [here] at ended
      cases ended
  · refine attended.reach.append rfl ?_
    rw [silent]
    exact fun _ _ member => absurd member not_mem_nil

/-- A poll that settles what the call does next: it goes on, or it withdraws. -/
theorem settle_stage (ask : Ask) (status : Status) :
    (ask.settle verify false status).over ∨ ask.settle verify false status = .waiting := by
  cases status with
  | answered answer =>
    rw [Ask.settle]
    split
    · exact .inl rfl
    · split <;> exact .inl rfl
  | posted | claimed => exact .inr rfl
  | gone => exact .inl rfl

theorem Standing.call_reports (standing : Standing codec exchange) {status : Status}
    (inTime : choice.late = false) (polls : exchange.ask.stage.polls)
    (isNext : ∃ since reports, next = { exchange with
      ask := { exchange.ask with stage := exchange.ask.settle verify choice.late status }
      since := since
      reports := reports }) (notOver : next.ask.stage.over = false) : Standing codec next := by
  obtain ⟨since, reports, rfl⟩ := isNext
  dsimp only at notOver
  rw [inTime] at notOver ⊢
  rcases settle_stage exchange.ask status with ended | waiting
  · rw [ended] at notOver
    cases notOver
  · rw [waiting]
    exact standing.poll_step polls rfl rfl rfl rfl rfl rfl nofun

/-- A call that is still posting has its request nowhere but in its own hands. -/
theorem Standing.unposted (standing : Standing codec exchange)
    (polls : exchange.ask.stage.polls = false) :
    (exchange.ask.stage = .writing ∨ exchange.ask.stage = .placing ∧
        exchange.folder (exchange.file (.tmp exchange.ask.process)) =
          some (.file exchange.ask.bytes)) ∧
      Files exchange none none none ∧ Free exchange ∧ exchange.answered = none := by
  cases standing.place with
  | unposted stage files free unanswered => exact ⟨stage, files, free, unanswered⟩
  | posted before => rw [before] at polls; cases polls
  | taken before => rw [before] at polls; cases polls
  | answering before => rw [before] at polls; cases polls
  | settled before => rw [before] at polls; cases polls

theorem Standing.write (standing : Standing codec exchange)
    (here : exchange.ask.stage = .writing)
    (isNext : ∃ since reports, next = { exchange with
      folder := exchange.folder.write (exchange.file (.tmp exchange.ask.process)) exchange.ask.bytes
      ask := { exchange.ask with stage := .placing }
      since := since
      reports := reports }) : Standing codec next := by
  obtain ⟨-, files, free, unanswered⟩ := standing.unposted (by rw [here]; rfl)
  obtain ⟨since, reports, rfl⟩ := isNext
  refine ⟨standing.sized, Plain.write standing.plain _ _, standing.named, standing.idle, nofun, ?_⟩
  have kept : ∀ ext, ext ≠ .tmp exchange.ask.process →
      exchange.folder.write (exchange.file (.tmp exchange.ask.process)) exchange.ask.bytes
        (exchange.file ext) = exchange.folder (exchange.file ext) :=
    fun ext ne => Folder.write_of_ne _ (file_ne ne)
  refine .unposted (.inr ⟨rfl, ?_⟩) ⟨?_, ?_, ?_⟩ ⟨free.noTask, free.noCard⟩ unanswered
  · exact Folder.write_self _ fun entry isThere => standing.plain _ entry isThere
  · exact (kept .request nofun).trans files.request
  · exact (kept .claimed nofun).trans files.claimed
  · exact (kept .answer nofun).trans files.answer

theorem Standing.post (standing : Standing codec exchange) {placed : Folder}
    (here : exchange.ask.stage = .placing)
    (isPlaced : exchange.folder.rename (exchange.file (.tmp exchange.ask.process))
      (exchange.file .request) = some placed)
    (isNext : ∃ since reports, next = { exchange with
      folder := placed
      ask := { exchange.ask with stage := .lookingForAnswer }
      since := since
      reports := reports }) : Standing codec next := by
  obtain ⟨posting, files, free, unanswered⟩ := standing.unposted (by rw [here]; rfl)
  rcases posting with writing | ⟨-, temp⟩
  · rw [here] at writing
    cases writing
  obtain ⟨request, -, -, rest⟩ := Folder.rename_spec isPlaced (file_ne nofun)
  obtain ⟨since, reports, rfl⟩ := isNext
  refine ⟨standing.sized, Plain.rename standing.plain isPlaced, standing.named, standing.idle,
    nofun, ?_⟩
  refine .posted rfl ⟨request.trans temp, ?_, ?_⟩ ⟨free.noTask, free.noCard⟩ unanswered
  · exact (rest (exchange.file .claimed) (file_ne nofun) (file_ne nofun)).trans files.claimed
  · exact (rest (exchange.file .answer) (file_ne nofun) (file_ne nofun)).trans files.answer

/-- What a look reports, as the poll began. -/
theorem Standing.reaches (standing : Standing codec exchange)
    (written : ∀ answer, codec.decodeAnswer (codec.encodeAnswer answer) = some answer)
    (reliable : choice.fails = false) {answer : Answer} {status : Status}
    (since : (if exchange.ask.stage = .lookingForAnswer then exchange.answered
      else exchange.since) = some answer)
    (reported : exchange.ask.report codec exchange.folder choice = some status) :
    status = .answered answer := by
  unfold Ask.report at reported
  split at reported
  · rename_i here
    rw [if_pos here] at since
    rw [reliable, if_neg Bool.false_ne_true] at reported
    rcases standing.answer (by rw [here]; rfl) with ⟨-, unanswered⟩ | ⟨other, read, answered⟩
    · rw [unanswered] at since
      cases since
    · rw [answered] at since
      cases since
      change (exchange.folder.read (exchange.file .answer)).map _ = _ at reported
      rw [read] at reported
      cases reported
      show Status.answered ((codec.decodeAnswer _).getD _) = _
      rw [written answer]
      rfl
  · rename_i here
    rw [if_neg (by rw [here]; nofun), standing.since (.inl here)] at since
    cases since
  · rename_i here
    rw [if_neg (by rw [here]; nofun), standing.since (.inr here)] at since
    cases since
  · cases reported

theorem Attended.call_step (attended : Attended codec exchange)
    (written : ∀ answer, codec.decodeAnswer (codec.encodeAnswer answer) = some answer)
    (reliable : choice.fails = false) (inTime : choice.late = false)
    (advanced : exchange.advanceCall codec verify choice = some next) :
    Attended codec next := by
  cases ended : exchange.ask.stage.over with
  | true => exact attended.call_over ended advanced
  | false =>
    have standing := attended.standing ended
    unfold Exchange.advanceCall at advanced
    obtain ⟨⟨folder, stage⟩, stepped, rfl⟩ := Option.map_eq_some_iff.mp advanced
    refine ⟨fun notOver => ?_, attended.reach.append rfl fun answer status member => ?_⟩
    · unfold Ask.advance at stepped
      cases here : exchange.ask.stage with
      | writing =>
        rw [here, reliable] at stepped
        cases stepped
        exact standing.write here ⟨_, _, rfl⟩
      | placing =>
        obtain ⟨posting, -⟩ := standing.unposted (by rw [here]; rfl)
        rcases posting with writing | ⟨-, temp⟩
        · rw [here] at writing
          cases writing
        have placed := Folder.rename_eq_some temp (exchange.file .request)
        rw [here, reliable] at stepped
        dsimp only at stepped
        rw [show exchange.ask.file = exchange.file from rfl, placed] at stepped
        cases stepped
        exact standing.post here placed ⟨_, _, rfl⟩
      | removingTemp =>
        obtain ⟨posting, -⟩ := standing.unposted (by rw [here]; rfl)
        rw [here] at posting
        rcases posting with writing | ⟨placing, -⟩
        · cases writing
        · cases placing
      | lookingForAnswer =>
        have polls : exchange.ask.stage.polls := by
          rw [here]
          rfl
        simp only [here] at stepped
        split at stepped
        · cases stepped
          exact standing.call_reports inTime polls ⟨_, _, rfl⟩ notOver
        · rename_i unreported
          cases stepped
          refine standing.poll_step polls rfl rfl rfl rfl rfl rfl fun _ => ?_
          show exchange.answered = none
          rcases standing.answer polls with ⟨-, unanswered⟩ | ⟨answer, read, -⟩
          · exact unanswered
          · unfold Ask.report at unreported
            rw [here, reliable] at unreported
            change (exchange.folder.read (exchange.file .answer)).map _ = none at unreported
            rw [read] at unreported
            cases unreported
      | lookingForClaim =>
        have polls : exchange.ask.stage.polls := by
          rw [here]
          rfl
        simp only [here] at stepped
        split at stepped
        · cases stepped
          exact standing.call_reports inTime polls ⟨_, _, rfl⟩ notOver
        · cases stepped
          refine standing.poll_step polls rfl rfl rfl rfl rfl rfl fun _ => ?_
          show exchange.since = none
          exact standing.since (.inl here)
      | lookingForRequest =>
        have polls : exchange.ask.stage.polls := by
          rw [here]
          rfl
        simp only [here] at stepped
        split at stepped
        · cases stepped
          exact standing.call_reports inTime polls ⟨_, _, rfl⟩ notOver
        · cases stepped
      | waiting =>
        simp only [here] at stepped
        split at stepped
        · cases stepped
          cases notOver
        · cases stepped
          exact standing.poll_step (by rw [here]; rfl) rfl rfl rfl rfl rfl rfl nofun
      | removingRequest outcome | removingClaim outcome | removingAnswer outcome
      | returned outcome =>
        rw [here] at ended
        cases ended
    · obtain ⟨reported, isReport, same⟩ := Option.map_eq_some_iff.mp (Option.mem_toList.mp member)
      obtain ⟨since, rfl⟩ := Prod.mk.inj same
      exact standing.reaches written reliable since isReport

theorem observe_same (exchange : Exchange) (running : Running) (event : Option TaskEvent) :
    (exchange.observe running event).ask = exchange.ask ∧
      (exchange.observe running event).folder = exchange.folder ∧
      (exchange.observe running event).tasks = exchange.tasks ∧
      (exchange.observe running event).reports = exchange.reports := by
  unfold Exchange.observe
  split <;> exact ⟨rfl, rfl, rfl, rfl⟩

theorem Attended.task_step (attended : Attended codec exchange) {index : Nat}
    (reliable : Reliable exchange (.task index choice))
    (inTime : choice.stale = false ∧ choice.expired = false)
    (advanced : exchange.advanceTask codec index choice = some next) : Attended codec next := by
  unfold Exchange.advanceTask at advanced
  obtain ⟨running, found, rest⟩ := Option.bind_eq_some_iff.mp advanced
  obtain ⟨⟨folder, stage, event⟩, stepped, isNext⟩ := Option.bind_eq_some_iff.mp rest
  cases isNext
  obtain ⟨ask, -, -, reports⟩ := observe_same { exchange with
    folder := folder
    tasks := exchange.withStage index running stage } running event
  constructor
  · intro notOver
    have before : exchange.ask.stage.over = false := by
      rw [← notOver]
      exact congrArg (fun ask : Ask => ask.stage.over) ask.symm
    exact (attended.standing before).task_step found (reliable running found) inTime stepped rfl
  · intro answer status member
    exact attended.reach answer status (reports ▸ member)

/-- A task begins. -/
theorem Standing.begin (standing : Standing codec exchange) (process : Nat) {stage : TaskStage}
    (idles : stage.idles) : Standing codec (exchange.begin process stage) := by
  have holders : (exchange.begin process stage).holders = exchange.holders := by
    show (exchange.tasks ++ [_]).filter _ = exchange.tasks.filter _
    rw [filter_append]
    refine (congrArg _ (filter_cons_of_neg ?_)).trans (append_nil _)
    exact Bool.not_eq_true _ ▸ not_holds_of_idles idles
  refine ⟨standing.sized, standing.plain, fun one member => ?_, fun one member => ?_,
    standing.since, standing.place.of_same rfl rfl rfl (.inr rfl) holders rfl rfl⟩
  · rcases mem_append.mp member with old | new
    · exact standing.named one old
    · rw [mem_singleton.mp new]
      rfl
  · rcases mem_append.mp member with old | new
    · exact standing.idle one old
    · rw [mem_singleton.mp new]
      exact .inr idles

/-- A card is answered: its task holds the claim now. -/
theorem Standing.answerCard (standing : Standing codec exchange) {index : Nat} {answer : Answer}
    (answered : exchange.answerCard index answer = some next) : Standing codec next := by
  unfold Exchange.answerCard at answered
  obtain ⟨⟨process, card⟩, found, rfl⟩ := Option.map_eq_some_iff.mp answered
  have someCard : exchange.cards ≠ [] := by
    intro none
    rw [none] at found
    cases found
  have asked : exchange.ask.stage.polls ∧
      Files exchange none (some exchange.ask.bytes) none ∧ exchange.holders = [] ∧
      exchange.cards.length ≤ 1 ∧ exchange.answered = none := by
    cases standing.place with
    | unposted _ _ free _ => exact absurd free.noCard someCard
    | posted _ _ free _ => exact absurd free.noCard someCard
    | answering _ _ _ _ _ noCard _ _ => exact absurd noCard someCard
    | settled _ _ _ free _ => exact absurd free.noCard someCard
    | taken polls files held unanswered =>
      cases held with
      | working _ _ noCard _ => exact absurd noCard someCard
      | asked noTask card => exact ⟨polls, files, noTask, card, unanswered⟩
  obtain ⟨polls, files, noTask, oneCard, unanswered⟩ := asked
  have noCard : exchange.cards.eraseIdx index = [] := by
    obtain ⟨bound, -⟩ := List.getElem?_eq_some_iff.mp found
    refine length_eq_zero_iff.mp ?_
    rw [length_eraseIdx_of_lt bound]
    omega
  have held : Held codec ({ exchange with cards := exchange.cards.eraseIdx index }.begin process
      (.checking answer false)) := by
    refine .working ⟨exchange.ask.stage.isReturned,
      ⟨process, exchange.ask.request.id, .checking answer false⟩⟩ ?_ noCard trivial
    show (exchange.tasks ++ [_]).filter _ = [_]
    rw [filter_append, show exchange.tasks.filter _ = [] from noTask]
    rfl
  refine ⟨standing.sized, standing.plain, fun one member => ?_, fun one member => ?_,
    standing.since, .taken polls (files.of_same rfl rfl) held unanswered⟩
  · rcases mem_append.mp member with old | new
    · exact standing.named one old
    · rw [mem_singleton.mp new]
      rfl
  · rcases mem_append.mp member with old | new
    · exact standing.idle one old
    · rw [mem_singleton.mp new]
      exact .inl rfl

/-- A card is dropped. -/
theorem Standing.drop (standing : Standing codec exchange) (index : Nat) :
    Standing codec { exchange with cards := exchange.cards.eraseIdx index } := by
  have fewer : (exchange.cards.eraseIdx index).length ≤ exchange.cards.length :=
    length_eraseIdx_le ..
  have none : exchange.cards = [] → exchange.cards.eraseIdx index = [] := fun empty => by
    rw [empty]
    rfl
  refine ⟨standing.sized, standing.plain, standing.named, standing.idle, standing.since, ?_⟩
  cases standing.place with
  | unposted stage files free unanswered =>
    exact .unposted stage (files.of_same rfl rfl) ⟨free.noTask, none free.noCard⟩ unanswered
  | posted polls files free unanswered =>
    exact .posted polls (files.of_same rfl rfl) ⟨free.noTask, none free.noCard⟩ unanswered
  | taken polls files held unanswered =>
    refine .taken polls (files.of_same rfl rfl) ?_ unanswered
    cases held with
    | working running only noCard working => exact .working running only (none noCard) working
    | asked noTask card => exact .asked noTask (Nat.le_trans fewer card)
  | answering polls answer files running only noCard dropping answered =>
    exact .answering polls answer (files.of_same rfl rfl) running only (none noCard) dropping answered
  | settled polls answer files free answered =>
    exact .settled polls answer (files.of_same rfl rfl) ⟨free.noTask, none free.noCard⟩ answered

theorem Attended.of_standing (attended : Attended codec exchange)
    (stands : Standing codec exchange → Standing codec next)
    (ask : next.ask = exchange.ask) (reports : next.reports = exchange.reports) :
    Attended codec next where
  standing := fun notOver => stands (attended.standing (ask ▸ notOver))
  reach := fun answer status member => attended.reach answer status (reports ▸ member)

theorem Attended.step (attended : Attended codec exchange)
    (written : ∀ answer, codec.decodeAnswer (codec.encodeAnswer answer) = some answer)
    {action : ExchangeAction} (reliable : Reliable exchange action) (inTime : InTime action)
    (stepped : (exchanging codec verify).step exchange action = some next) :
    Attended codec next := by
  cases action with
  | call choice => exact attended.call_step written reliable inTime stepped
  | task index choice => exact attended.task_step reliable inTime stepped
  | claim process =>
    cases stepped
    exact attended.of_standing (fun standing => standing.begin process rfl) rfl rfl
  | scan process ext =>
    cases stepped
    exact attended.of_standing (fun standing => standing.begin process rfl) rfl rfl
  | answer index answer =>
    have same : next.ask = exchange.ask ∧ next.reports = exchange.reports := by
      obtain ⟨card, -, rfl⟩ := Option.map_eq_some_iff.mp stepped
      exact ⟨rfl, rfl⟩
    exact attended.of_standing (fun standing => standing.answerCard stepped) same.1 same.2
  | drop index =>
    cases stepped
    exact attended.of_standing (fun standing => standing.drop index) rfl rfl

theorem attended_start (codec : Codec) (process : Nat) (request : SudoRequest) :
    Attended codec (.start codec process request) := by
  refine ⟨fun notOver => ?_, fun _ _ member => absurd member not_mem_nil⟩
  have stage : (Ask.start codec process request).stage = .writing ∧
      (codec.encodeRequest request).length ≤ maxRequestBytes := by
    change (Ask.start codec process request).stage.over = false at notOver
    unfold Ask.start at notOver ⊢
    dsimp only at notOver ⊢
    split at notOver
    · rename_i proper
      exact ⟨if_pos proper, proper.2⟩
    · cases notOver
  exact
    { sized := stage.2
      plain := fun name entry isThere => by cases isThere
      named := forall_mem_nil _
      idle := forall_mem_nil _
      since := fun _ => rfl
      place := .unposted (.inl stage.1) ⟨rfl, rfl, rfl⟩ ⟨rfl, rfl⟩ rfl }

end

/-! ### What a poll has still to see -/

/-- A poll on its way to the claim has one of two files to find, and on its way to the request the
last one. -/
structure Seen (exchange : Exchange) : Prop where
  claim : exchange.ask.stage = .lookingForClaim →
    exchange.folder.isThere (exchange.file .request) ∨
      exchange.folder.isThere (exchange.file .claimed)
  request : exchange.ask.stage = .lookingForRequest →
    exchange.folder.isThere (exchange.file .request)

section

variable {exchange next : Exchange}

theorem Seen.of_stage (claim : next.ask.stage ≠ .lookingForClaim)
    (request : next.ask.stage ≠ .lookingForRequest) : Seen next :=
  ⟨fun here => absurd here claim, fun here => absurd here request⟩

theorem Seen.of_same (seen : Seen exchange) (folder : next.folder = exchange.folder)
    (ask : next.ask = exchange.ask) : Seen next := by
  have file : next.file = exchange.file := funext fun ext => by
    show next.ask.file ext = _
    rw [ask]
    rfl
  refine ⟨?_, ?_⟩
  · rw [folder, file, ask]
    exact seen.claim
  · rw [folder, file, ask]
    exact seen.request

/-- A task keeps what the poll has still to see, unless it takes the request or drops the claim past
it. -/
theorem Seen.moved (seen : Seen exchange) (plain : Plain exchange.folder) {task : Task}
    (named : task.id = exchange.ask.request.id)
    (idle : task.stage.holds ∨ task.stage.idles) {fails : Bool} {after : Folder}
    {stage : TaskStage} {event : Option TaskEvent}
    (steps : task.Steps codec exchange.folder fails after stage event)
    (notTaken : ∀ scanning, task.stage = .taking scanning →
      exchange.ask.stage ≠ .lookingForRequest)
    (notDropped : task.stage = .removing .claimed → exchange.ask.stage ≠ .lookingForClaim)
    (folder : next.folder = after) (ask : next.ask = exchange.ask) : Seen next := by
  have file : task.file = exchange.file := funext fun ext => congrArg (FileName.mk · ext) named
  have temp : task.temp = exchange.file (.tmp task.process) := congrFun file _
  have nextFile : next.file = exchange.file := funext fun ext => by
    show next.ask.file ext = _
    rw [ask]
    rfl
  have moved : ∀ {source target : FileName} {renamed : Folder},
      exchange.folder.rename source target = some renamed → source ≠ target →
        renamed.isThere target := by
    intro source target renamed isRenamed ne
    obtain ⟨there, -, some, -⟩ := Folder.rename_spec isRenamed ne
    obtain ⟨entry, isEntry⟩ := Option.isSome_iff_exists.mp some
    have isPlain := plain _ _ isEntry
    show (renamed target).any Entry.there = true
    rw [there, isEntry]
    cases entry with
    | file bytes => rfl
    | other _ _ => cases isPlain
  -- Two files that a step leaves as they are.
  have kept : ∀ {other : Folder}, (∀ ext ∈ [Ext.request, .claimed],
      other (exchange.file ext) = exchange.folder (exchange.file ext)) → next.folder = other →
        Seen next := by
    intro other same isNext
    have request := Folder.isThere_of_same (same .request (by decide))
    have claimed := Folder.isThere_of_same (same .claimed (by decide))
    refine ⟨?_, ?_⟩
    · rw [isNext, nextFile, ask, request, claimed]
      exact seen.claim
    · rw [isNext, nextFile, ask, request]
      exact seen.request
  cases steps with
  | stays | claims | finds => exact seen.of_same folder ask
  | takes scanning here renamed =>
    rw [file] at renamed
    refine ⟨fun _ => .inr ?_, fun looking => ?_⟩
    · rw [folder, nextFile]
      exact moved renamed (file_ne nofun)
    · rw [ask] at looking
      exact absurd looking (notTaken scanning here)
  | putsBack here renamed =>
    rw [file] at renamed
    have back := moved renamed (file_ne nofun)
    refine ⟨fun _ => .inl ?_, fun _ => ?_⟩ <;>
    · rw [folder, nextFile]
      exact back
  | removes ext here =>
    have isClaim : ext = .claimed := by
      rw [here] at idle
      cases ext with
      | claimed => rfl
      | request | answer | tmp _ =>
        rcases idle with holds | idles
        · cases holds
        · cases idles
    subst isClaim
    rw [file] at folder
    refine ⟨fun looking => ?_, fun looking => ?_⟩
    · rw [ask] at looking
      exact absurd looking (notDropped here)
    · have request := seen.request (ask ▸ looking)
      rw [folder, nextFile]
      have ne : exchange.file .request ≠ exchange.file .claimed := file_ne nofun
      exact (Folder.isThere_of_same (Folder.dropFile_of_ne fails ne)).trans request
  | writes answer refusing here =>
    refine kept (fun ext isOne => ?_) folder
    refine Folder.write_of_ne _ ?_
    rw [temp]
    refine file_ne fun isTmp => ?_
    rw [isTmp] at isOne
    simp at isOne
  | places answer refusing here renamed =>
    rw [temp, file] at renamed
    obtain ⟨-, -, -, rest⟩ := Folder.rename_spec renamed (file_ne nofun)
    refine kept (fun ext isOne => rest _ (file_ne fun isTmp => ?_) (file_ne fun isAnswer => ?_))
      folder
    · rw [isTmp] at isOne
      simp at isOne
    · rw [isAnswer] at isOne
      simp at isOne
  | dropsTemp refusing here =>
    rw [here] at idle
    rcases idle with holds | idles
    · cases holds
    · cases idles

/-- A call that begins its look for the claim has found no answer, so its request is there. -/
theorem Standing.seen_of_unanswered (standing : Standing codec exchange)
    (polls : exchange.ask.stage.polls)
    (unread : exchange.folder.read (exchange.file .answer) = none) :
    exchange.folder.isThere (exchange.file .request) ∨
      exchange.folder.isThere (exchange.file .claimed) := by
  have notThere : ∀ {request claimed answer},
      Files exchange request claimed (some answer) → False := by
    intro request claimed answer files
    rw [Folder.read, files.answer] at unread
    cases unread
  cases standing.place with
  | unposted posting _ _ _ =>
    rcases posting with writing | ⟨placing, -⟩
    · rw [writing] at polls
      cases polls
    · rw [placing] at polls
      cases polls
  | posted _ files _ _ => exact .inl (congrArg (Option.any Entry.there) files.request)
  | taken _ files _ _ => exact .inr (congrArg (Option.any Entry.there) files.claimed)
  | answering _ answer files _ _ _ _ _ => exact (notThere files).elim
  | settled _ answer files _ _ => exact (notThere files).elim

theorem Seen.settled {status : Status} {late : Bool} (ask : Ask)
    (stage : next.ask.stage = ask.settle verify late status) : Seen next := by
  have notLooking : ∀ looking : AskStage, looking = .lookingForClaim ∨ looking = .lookingForRequest →
      ask.settle verify late status ≠ looking := by
    rintro looking isLooking same
    unfold Ask.settle at same
    rcases isLooking with rfl | rfl <;>
    · split at same
      · split at same
        · cases same
        · split at same <;> cases same
      · split at same <;> cases same
      · split at same <;> cases same
      · cases same
  refine .of_stage ?_ ?_ <;> rw [stage]
  · exact notLooking _ (.inl rfl)
  · exact notLooking _ (.inr rfl)

theorem Seen.call_step (seen : Seen exchange)
    (stands : exchange.ask.stage.over = false → Standing codec exchange) {choice : Choice}
    (reliable : choice.fails = false)
    (advanced : exchange.advanceCall codec verify choice = some next) : Seen next := by
  unfold Exchange.advanceCall at advanced
  obtain ⟨⟨folder, stage⟩, stepped, rfl⟩ := Option.map_eq_some_iff.mp advanced
  unfold Ask.advance at stepped
  cases here : exchange.ask.stage with
  | writing =>
    simp only [here] at stepped
    split at stepped <;>
    · cases stepped
      exact .of_stage nofun nofun
  | placing =>
    simp only [here] at stepped
    split at stepped <;>
    · cases stepped
      exact .of_stage nofun nofun
  | lookingForAnswer =>
    simp only [here] at stepped
    split at stepped
    · cases stepped
      exact .settled exchange.ask rfl
    · rename_i unreported
      cases stepped
      unfold Ask.report at unreported
      rw [here, reliable] at unreported
      have unread := Option.map_eq_none_iff.mp unreported
      have standing := stands (by rw [here]; rfl)
      exact ⟨fun _ => standing.seen_of_unanswered (by rw [here]; rfl) unread, nofun⟩
  | lookingForClaim =>
    simp only [here] at stepped
    split at stepped
    · cases stepped
      exact .settled exchange.ask rfl
    · rename_i unreported
      cases stepped
      unfold Ask.report at unreported
      simp only [here] at unreported
      split at unreported
      · cases unreported
      · rename_i unclaimed
        refine ⟨nofun, fun _ => ?_⟩
        rcases seen.claim here with request | claimed
        · exact request
        · exact absurd claimed unclaimed
  | lookingForRequest =>
    simp only [here] at stepped
    split at stepped
    · cases stepped
      exact .settled exchange.ask rfl
    · cases stepped
  | waiting =>
    simp only [here] at stepped
    split at stepped <;>
    · cases stepped
      exact .of_stage nofun nofun
  | removingTemp | removingRequest outcome | removingClaim outcome | removingAnswer outcome =>
    rw [here] at stepped
    cases stepped
    exact .of_stage nofun nofun
  | returned outcome =>
    rw [here] at stepped
    cases stepped

/-- A poll that sees its request does not report it gone. -/
theorem Seen.report_ne_gone (seen : Seen exchange) {choice : Choice} {status : Status}
    (reported : exchange.ask.report codec exchange.folder choice = some status) :
    status ≠ .gone := by
  unfold Ask.report at reported
  split at reported
  · split at reported
    · cases reported
    · obtain ⟨bytes, -, rfl⟩ := Option.map_eq_some_iff.mp reported
      nofun
  · split at reported
    · cases reported
      nofun
    · cases reported
  · rename_i here
    have isThere := seen.request here
    cases reported
    change exchange.folder.isThere (exchange.ask.file .request) = true at isThere
    rw [if_pos isThere]
    nofun
  · cases reported

/-! ### Every run -/

/-- What every run keeps whose steps do not disturb a poll. -/
structure Watched (codec : Codec) (exchange : Exchange) : Prop where
  attended : Attended codec exchange
  seen : Seen exchange
  neverGone : NeverGone exchange

theorem Watched.step (watched : Watched codec exchange)
    (written : ∀ answer, codec.decodeAnswer (codec.encodeAnswer answer) = some answer)
    {action : ExchangeAction} (reliable : Reliable exchange action) (inTime : InTime action)
    (undisturbed : Undisturbed exchange action)
    (stepped : (exchanging codec verify).step exchange action = some next) :
    Watched codec next := by
  have attended := watched.attended.step written reliable inTime stepped
  cases action with
  | call choice =>
    refine ⟨attended, watched.seen.call_step watched.attended.standing reliable stepped, ?_⟩
    obtain ⟨_, -, rfl⟩ := Option.map_eq_some_iff.mp stepped
    intro report member
    rcases mem_append.mp member with old | new
    · exact watched.neverGone report old
    · obtain ⟨status, isReport, rfl⟩ := Option.map_eq_some_iff.mp (Option.mem_toList.mp new)
      exact watched.seen.report_ne_gone isReport
  | task index choice =>
    obtain ⟨running, found, rest⟩ := Option.bind_eq_some_iff.mp stepped
    obtain ⟨⟨folder, stage, event⟩, advanced, isNext⟩ := Option.bind_eq_some_iff.mp rest
    cases isNext
    obtain ⟨ask, sameFolder, -, reports⟩ := observe_same { exchange with
      folder := folder
      tasks := exchange.withStage index running stage } running event
    refine ⟨attended, ?_, fun report member => watched.neverGone report (reports ▸ member)⟩
    cases ended : exchange.ask.stage.over with
    | true =>
      refine .of_stage ?_ ?_ <;>
      · intro looking
        have here : exchange.ask.stage = _ := (congrArg Ask.stage ask).symm.trans looking
        rw [here] at ended
        cases ended
    | false =>
      have standing := watched.attended.standing ended
      have member := mem_of_getElem? found
      obtain ⟨notTaken, notDropped⟩ := undisturbed running found
      exact watched.seen.moved standing.plain (standing.named running member)
        (standing.idle running member) (Task.steps_of_advance advanced) notTaken notDropped
        sameFolder ask
  | claim process | scan process ext | drop index =>
    cases stepped
    exact ⟨attended, watched.seen.of_same rfl rfl, watched.neverGone⟩
  | answer index answer =>
    obtain ⟨_, -, rfl⟩ := Option.map_eq_some_iff.mp stepped
    exact ⟨attended, watched.seen.of_same rfl rfl, watched.neverGone⟩

theorem seen_start (codec : Codec) (process : Nat) (request : SudoRequest) :
    Seen (.start codec process request) := by
  have stage : (Ask.start codec process request).stage = .writing ∨
      (Ask.start codec process request).stage = .returned (.error .io) := by
    unfold Ask.start
    dsimp only
    split
    · exact .inl rfl
    · exact .inr rfl
  refine .of_stage ?_ ?_ <;>
  · intro looking
    change (Ask.start codec process request).stage = _ at looking
    rw [looking] at stage
    rcases stage with writing | returned
    · cases writing
    · cases returned

/-- However the operations interleave, a poll that begins when an app is through with an answer
reports it; and where none of them disturbs a poll, no poll reports the request gone. -/
theorem neverLost_of_run {process : Nat} {request : SudoRequest} {actions : List ExchangeAction}
    {final : Exchange}
    (written : ∀ answer, codec.decodeAnswer (codec.encodeAnswer answer) = some answer)
    (assumed : (exchanging codec verify).Along
      (fun exchange action => Reliable exchange action ∧ InTime action)
      (.start codec process request) actions)
    (ran : (exchanging codec verify).run (.start codec process request) actions = some final) :
    AnswersReach final ∧
      ((exchanging codec verify).Along Undisturbed (.start codec process request) actions →
        NeverGone final) := by
  refine ⟨?_, fun undisturbed => ?_⟩
  · have attended : Attended codec final := Machine.invariant
      (fun _ _ _ attended assumed stepped => attended.step written assumed.1 assumed.2 stepped)
      (attended_start codec process request) assumed ran
    exact attended.reach
  · have watched : Watched codec final := Machine.invariant
      (fun _ _ _ watched (assumed : (_ ∧ _) ∧ _) stepped =>
        watched.step written assumed.1.1 assumed.1.2 assumed.2 stepped)
      ⟨attended_start codec process request, seen_start codec process request,
        forall_mem_nil _⟩
      (assumed.and undisturbed) ran
    exact watched.neverGone

end

/-! ### Two runs -/

instance (exchange : Exchange) : ∀ action, Decidable (Undisturbed exchange action)
  | .task index _ => inferInstanceAs (Decidable (∀ running ∈ exchange.tasks[index]?,
      (∀ scanning, running.task.stage = .taking scanning →
        exchange.ask.stage ≠ .lookingForRequest) ∧
      (running.task.stage = .removing .claimed → exchange.ask.stage ≠ .lookingForClaim)))
  | .call _ | .claim _ | .scan _ _ | .answer _ _ | .drop _ => isTrue trivial

/-- An app claims the request, a poll sees the claim, a person refuses, and the next poll reports
it. -/
def answeredRun : List ExchangeAction :=
  [.call .plain, .call .plain, .claim 2, .task 0 .plain, .task 0 .plain, .task 0 .plain,
    .call .plain, .call .plain, .answer 0 refusal, .task 1 .plain, .task 1 .plain, .task 1 .plain,
    .call .plain, .call .plain]

theorem neverLost_answeredRun : ∃ final,
    (exchanging refusalCodec refuseAll).run (.start refusalCodec 1 sampleRequest) answeredRun =
        some final ∧
      AnswersReach final ∧ NeverGone final ∧
        (some refusal, Status.answered refusal) ∈ final.reports := by
  have reported : ((exchanging refusalCodec refuseAll).run (.start refusalCodec 1 sampleRequest)
      answeredRun).any (fun final =>
        decide ((some refusal, Status.answered refusal) ∈ final.reports)) = true := by
    decide +kernel
  have assumed : (exchanging refusalCodec refuseAll).Along
      (fun exchange action => Reliable exchange action ∧ InTime action)
      (.start refusalCodec 1 sampleRequest) answeredRun := by
    decide +kernel
  have undisturbed : (exchanging refusalCodec refuseAll).Along Undisturbed
      (.start refusalCodec 1 sampleRequest) answeredRun := by
    decide +kernel
  obtain ⟨final, ran, isReported⟩ := (Option.any_eq_true _ _).mp reported
  obtain ⟨reach, never⟩ := neverLost_of_run refusalCodec_answer assumed ran
  exact ⟨final, ran, reach, never undisturbed, of_decide_eq_true isReported⟩

/-- A poll finds no claim, an app takes the request, and the same poll finds no request. -/
def takenBetween : List ExchangeAction :=
  [.call .plain, .call .plain, .claim 2, .task 0 .plain, .call .plain, .call .plain,
    .task 0 .plain, .call .plain]

theorem not_neverGone_takenBetween :
    (exchanging refusalCodec refuseAll).Along
        (fun exchange action => Reliable exchange action ∧ InTime action)
        (.start refusalCodec 1 sampleRequest) takenBetween ∧
      ∃ final, (exchanging refusalCodec refuseAll).run (.start refusalCodec 1 sampleRequest)
          takenBetween = some final ∧
        ¬NeverGone final := by
  refine ⟨by decide +kernel, ?_⟩
  have reported : ((exchanging refusalCodec refuseAll).run (.start refusalCodec 1 sampleRequest)
      takenBetween).any (fun final => final.reports.any fun report => report.2 = .gone) = true := by
    decide +kernel
  obtain ⟨final, ran, someGone⟩ := (Option.any_eq_true _ _).mp reported
  obtain ⟨report, member, isGone⟩ := any_eq_true.mp someGone
  exact ⟨final, ran, fun never => never report member (of_decide_eq_true isGone)⟩

end Oryxis.Consent

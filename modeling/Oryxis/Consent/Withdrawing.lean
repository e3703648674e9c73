/-
This file proves that a sudo question is asked at most once, and when it is asked no
more once its call has withdrawn it.

There is one token of a request: the call that has not posted it, the request file, a
task that is reading what it claimed or gives it back, and a claim that came to
something. No operation makes a second one, so no two claims come to something.

A call that has withdrawn leaves none of the three files, unless an operation that was
under way puts one of them back: a claim whose read failed, between the removal of the
request and that of the claim; an answer, after the removal of the answer.
-/

import Oryxis.Consent.Exchange
import Oryxis.Library.Picks
import Mathlib.Data.Bool.Basic

namespace Oryxis.Consent

open Library List

/-! ### What is to hold of a run -/

/-- No two claims come to something. -/
def AskedOnce (exchange : Exchange) : Prop := exchange.claims.length ≤ 1

/-- The call is through, and so are the tasks that had begun before. -/
def Exchange.isSettled (exchange : Exchange) : Prop :=
  exchange.ask.stage.isReturned ∧
    ∀ running ∈ exchange.tasks, running.late = false → running.task.stage = .done

def CleanedUp (exchange : Exchange) : Prop :=
  exchange.isSettled → ∀ ext, exchange.folder (exchange.file ext) = none

/-- No claim and no scan that began after the call came to something. -/
def NeverOffered (exchange : Exchange) : Prop :=
  true ∉ exchange.claims ∧ true ∉ exchange.offers

def AskStage.isRemovingClaim : AskStage → Bool
  | .removingClaim _ => true
  | _ => false

def TaskStage.isPlacing : TaskStage → Bool
  | .placing _ _ => true
  | _ => false

/-- No claim is put back while the call has removed the request and not yet the claim, and no answer
is put in place once the call is through. -/
def PutsNothingBack (exchange : Exchange) : ExchangeAction → Prop
  | .task index _ => ∀ running ∈ exchange.tasks[index]?,
      (running.task.stage = .puttingBack → exchange.ask.stage.isRemovingClaim →
        exchange.folder (running.task.file .claimed) = none) ∧
      (running.task.stage.isPlacing → exchange.ask.stage.isReturned →
        exchange.folder running.task.temp = none)
  | _ => True

/-! ### One operation of the call -/

/-- The folder and the stage after one operation of the call. -/
inductive Ask.Steps (ask : Ask) (folder : Folder) (fails : Bool) : Folder → AskStage → Prop
  | writes (here : ask.stage = .writing) :
      ask.Steps folder fails (folder.write (ask.file (.tmp ask.process)) ask.bytes) .placing
  | gives_up (here : ask.stage = .writing ∧ fails = true ∨ ask.stage = .placing) :
      ask.Steps folder fails folder .removingTemp
  | posts {placed : Folder} (here : ask.stage = .placing)
      (renamed : folder.rename (ask.file (.tmp ask.process)) (ask.file .request) = some placed) :
      ask.Steps folder fails placed .lookingForAnswer
  | dropsTemp (here : ask.stage = .removingTemp) :
      ask.Steps folder fails (Ask.dropFile folder (ask.file (.tmp ask.process)) fails)
        (.returned (.error .io))
  | polls {stage : AskStage}
      (here : ask.stage = .lookingForAnswer ∨ ask.stage = .lookingForClaim ∨
        ask.stage = .lookingForRequest ∨ ask.stage = .waiting)
      (goesOn : stage = .lookingForAnswer ∨ stage = .lookingForClaim ∨
        stage = .lookingForRequest ∨ stage = .waiting ∨ ∃ outcome, stage = .removingRequest outcome) :
      ask.Steps folder fails folder stage
  | dropsRequest (outcome : ConsentOutcome) (here : ask.stage = .removingRequest outcome) :
      ask.Steps folder fails (Ask.dropFile folder (ask.file .request) fails)
        (.removingClaim outcome)
  | dropsClaim (outcome : ConsentOutcome) (here : ask.stage = .removingClaim outcome) :
      ask.Steps folder fails (Ask.dropFile folder (ask.file .claimed) fails)
        (.removingAnswer outcome)
  | dropsAnswer (outcome : ConsentOutcome) (here : ask.stage = .removingAnswer outcome) :
      ask.Steps folder fails (Ask.dropFile folder (ask.file .answer) fails) (.returned outcome)

variable {codec : Codec} {verify : Bytes → Decision → String → Bool}

theorem settle_cases (ask : Ask) (late : Bool) (status : Status) :
    ask.settle verify late status = .waiting ∨
      ∃ outcome, ask.settle verify late status = .removingRequest outcome := by
  cases status with
  | answered answer =>
    rw [Ask.settle]
    split
    · exact .inr ⟨_, rfl⟩
    · split <;> exact .inr ⟨_, rfl⟩
  | posted | claimed =>
    rw [Ask.settle]
    split
    · exact .inr ⟨_, rfl⟩
    · exact .inl rfl
  | gone => exact .inr ⟨_, rfl⟩

variable {folder after : Folder} {choice : Choice} {stage : AskStage}

theorem Ask.steps_of_advance {ask : Ask}
    (advanced : ask.advance codec verify folder choice = some (after, stage)) :
    ask.Steps folder choice.fails after stage := by
  have goesOn : ∀ {stage : AskStage}, (stage = .waiting ∨ ∃ outcome, stage = .removingRequest outcome) →
      stage = .lookingForAnswer ∨ stage = .lookingForClaim ∨ stage = .lookingForRequest ∨
        stage = .waiting ∨ ∃ outcome, stage = .removingRequest outcome :=
    fun settled => .inr (.inr (.inr settled))
  unfold Ask.advance at advanced
  cases here : ask.stage with
  | writing =>
    simp only [here] at advanced
    split at advanced
    · rename_i fails
      cases advanced
      exact .gives_up (.inl ⟨here, fails⟩)
    · cases advanced
      exact .writes here
  | placing =>
    simp only [here] at advanced
    split at advanced
    · rename_i renamed _
      cases advanced
      exact .posts here renamed
    · cases advanced
      exact .gives_up (.inr here)
  | removingTemp =>
    rw [here] at advanced
    cases advanced
    exact .dropsTemp here
  | lookingForAnswer =>
    simp only [here] at advanced
    split at advanced
    · cases advanced
      exact .polls (by rw [here]; simp) (goesOn (settle_cases ask choice.late _))
    · cases advanced
      exact .polls (by rw [here]; simp) (.inr (.inl rfl))
  | lookingForClaim =>
    simp only [here] at advanced
    split at advanced
    · cases advanced
      exact .polls (by rw [here]; simp) (goesOn (settle_cases ask choice.late _))
    · cases advanced
      exact .polls (by rw [here]; simp) (.inr (.inr (.inl rfl)))
  | lookingForRequest =>
    simp only [here] at advanced
    split at advanced
    · cases advanced
      exact .polls (by rw [here]; simp) (goesOn (settle_cases ask choice.late _))
    · cases advanced
  | waiting =>
    simp only [here] at advanced
    split at advanced
    · cases advanced
      exact .polls (by rw [here]; simp) (.inr (.inr (.inr (.inr ⟨_, rfl⟩))))
    · cases advanced
      exact .polls (by rw [here]; simp) (.inl rfl)
  | removingRequest outcome =>
    rw [here] at advanced
    cases advanced
    exact .dropsRequest outcome here
  | removingClaim outcome =>
    rw [here] at advanced
    cases advanced
    exact .dropsClaim outcome here
  | removingAnswer outcome =>
    rw [here] at advanced
    cases advanced
    exact .dropsAnswer outcome here
  | returned outcome =>
    rw [here] at advanced
    cases advanced

/-! ### One token -/

/-- The call may yet post its request. -/
def AskStage.unposted : AskStage → Bool
  | .writing | .placing => true
  | _ => false

def TaskEvent.isClaimed : TaskEvent → Bool
  | .claimed _ => true
  | _ => false

def Folder.present (folder : Folder) (name : FileName) : Bool := (folder name).isSome

def Exchange.tokens (exchange : Exchange) : Nat :=
  exchange.ask.stage.unposted.toNat +
    (exchange.folder.present (exchange.file .request)).toNat +
    (exchange.tasks.filter fun running => running.task.stage.live).length +
    exchange.claims.length

theorem Folder.present_of_same {other : Folder} {name : FileName} (same : other name = folder name) : other.present name = folder.present name :=
  congrArg Option.isSome same

theorem Folder.present_of_rename {renamed : Folder} {source target : FileName}
    (isRenamed : folder.rename source target = some renamed) (ne : source ≠ target) :
    folder.present source = true ∧ renamed.present source = false ∧ renamed.present target = true := by
  obtain ⟨there, gone, wasThere, -⟩ := rename_spec isRenamed ne
  exact ⟨wasThere, congrArg Option.isSome gone, (congrArg Option.isSome there).trans wasThere⟩

theorem Folder.present_remove_le (folder : Folder) (name other : FileName) :
    ((folder.remove name).present other).toNat ≤ (folder.present other).toNat := by
  by_cases same : other = name
  · have gone : (folder.remove name).present other = false := by
      rw [same]
      exact congrArg Option.isSome (folder.remove_self name)
    rw [gone]
    exact Nat.zero_le _
  · exact Nat.le_of_eq (congrArg Bool.toNat (present_of_same (remove_of_ne same)))

theorem Folder.present_dropFile_le (folder : Folder) (name other : FileName) (fails : Bool) :
    ((Ask.dropFile folder name fails).present other).toNat ≤ (folder.present other).toNat := by
  unfold Ask.dropFile
  split
  · exact Nat.le_refl _
  · exact present_remove_le folder name other

variable {task : Task}

theorem task_file_ne {first second : Ext} (ne : first ≠ second) :
    task.file first ≠ task.file second :=
  fun same => ne (congrArg FileName.ext same)

variable {event : Option TaskEvent}

/-- A task passes on the token it has, or the one of the request file. -/
theorem Task.tokens_le {stage : TaskStage}
    (advanced : task.advance codec folder choice = some (after, stage, event)) :
    stage.live.toNat + (after.present (task.file .request)).toNat + (event.any TaskEvent.isClaimed).toNat ≤
      task.stage.live.toNat + (folder.present (task.file .request)).toNat := by
  cases Task.steps_of_advance advanced with
  | stays live => exact Nat.add_le_add_right (Bool.toNat_le_toNat live) _
  | takes scanning here renamed =>
    obtain ⟨wasThere, gone, -⟩ := Folder.present_of_rename renamed (task_file_ne nofun)
    rw [here, wasThere, gone]
    cases scanning <;> decide
  | claims here =>
    rw [here]
    show 0 + (folder.present (task.file .request)).toNat + 1 ≤
      1 + (folder.present (task.file .request)).toNat
    omega
  | putsBack here renamed =>
    obtain ⟨-, -, back⟩ := Folder.present_of_rename renamed (task_file_ne nofun)
    rw [here, back]
    exact Nat.le_add_right _ _
  | removes ext here =>
    rw [here]
    exact Nat.add_le_add_left (folder.present_dropFile_le _ _ _) _
  | finds event unclaimed =>
    cases event with
    | claimed claimed => exact absurd rfl (unclaimed claimed)
    | offered _ | answered _ => exact Nat.add_le_add_right (Nat.zero_le _) _
  | writes answer refusing here =>
    have same : folder.write task.temp (codec.encodeAnswer answer) (task.file .request) =
        folder (task.file .request) :=
      Folder.write_of_ne _ (task_file_ne nofun)
    rw [Folder.present_of_same same]
    exact Nat.add_le_add_right (Nat.zero_le _) _
  | places answer refusing here renamed =>
    obtain ⟨-, -, -, rest⟩ := Folder.rename_spec renamed (task_file_ne nofun)
    rw [Folder.present_of_same (rest (task.file .request) (task_file_ne nofun) (task_file_ne nofun))]
    exact Nat.add_le_add_right (Nat.zero_le _) _
  | dropsTemp refusing here =>
    rw [here]
    split <;> exact Nat.add_le_add_left (folder.present_dropFile_le _ _ _) _

/-- The call passes on the token it has. -/
theorem Ask.tokens_le {ask : Ask} {fails : Bool} (steps : ask.Steps folder fails after stage) :
    stage.unposted.toNat + (after.present (ask.file .request)).toNat ≤
      ask.stage.unposted.toNat + (folder.present (ask.file .request)).toNat := by
  have ne : ∀ {first second : Ext}, first ≠ second → ask.file first ≠ ask.file second :=
    fun ne same => ne (congrArg FileName.ext same)
  cases steps with
  | writes here =>
    have same : folder.write (ask.file (.tmp ask.process)) ask.bytes (ask.file .request) =
        folder (ask.file .request) :=
      Folder.write_of_ne _ (ne nofun)
    rw [here, Folder.present_of_same same]
    exact Nat.le_refl _
  | gives_up => exact Nat.add_le_add_right (Nat.zero_le _) _
  | posts here renamed =>
    rw [here]
    have back : (after.present (ask.file .request)).toNat ≤ 1 := Bool.toNat_le _
    exact Nat.le_trans (Nat.add_le_add_left back _) (Nat.le_add_right _ _)
  | dropsTemp here | dropsRequest outcome here | dropsClaim outcome here
  | dropsAnswer outcome here =>
    rw [here]
    exact Nat.add_le_add_left (folder.present_dropFile_le _ _ _) _
  | polls here goesOn =>
    refine Nat.add_le_add_right ?_ _
    rcases goesOn with rfl | rfl | rfl | rfl | ⟨outcome, rfl⟩ <;> exact Nat.zero_le _

section

variable {exchange next : Exchange}

/-- Every task is at the request the call posts. -/
def Named (exchange : Exchange) : Prop :=
  ∀ running ∈ exchange.tasks, running.task.id = exchange.ask.request.id

/-- The exchange after a call's operation. -/
theorem call_cases {choice : Choice}
    (advanced : exchange.advanceCall codec verify choice = some next) :
    ∃ folder stage since reports, exchange.ask.Steps exchange.folder choice.fails folder stage ∧
      next = { exchange with
        folder := folder
        ask := { exchange.ask with stage := stage }
        since := since
        reports := reports } := by
  obtain ⟨⟨folder, stage⟩, stepped, rfl⟩ := Option.map_eq_some_iff.mp advanced
  exact ⟨folder, stage, _, _, Ask.steps_of_advance stepped, rfl⟩

/-- The exchange after a task's operation. -/
theorem task_cases {index : Nat} {choice : Choice}
    (advanced : exchange.advanceTask codec index choice = some next) :
    ∃ running folder stage event, exchange.tasks[index]? = some running ∧
      running.task.advance codec exchange.folder choice = some (folder, stage, event) ∧
      next.folder = folder ∧ next.ask = exchange.ask ∧
      next.tasks = exchange.tasks.set index
        { running with task := { running.task with stage := stage } } ∧
      next.claims = exchange.claims ++
        (if event.any TaskEvent.isClaimed then [running.late] else []) ∧
      (next.offers = exchange.offers ∨ (∃ request, event = some (.offered request)) ∧
        next.offers = exchange.offers ++ [running.late]) := by
  obtain ⟨running, found, rest⟩ := Option.bind_eq_some_iff.mp advanced
  obtain ⟨⟨folder, stage, event⟩, stepped, isNext⟩ := Option.bind_eq_some_iff.mp rest
  cases isNext
  refine ⟨running, folder, stage, event, found, stepped, ?_⟩
  cases event with
  | none => exact ⟨rfl, rfl, rfl, (append_nil _).symm, .inl rfl⟩
  | some event =>
    cases event with
    | claimed claimed => exact ⟨rfl, rfl, rfl, rfl, .inl rfl⟩
    | offered request =>
      exact ⟨rfl, rfl, rfl, (append_nil _).symm, .inr ⟨⟨request, rfl⟩, rfl⟩⟩
    | answered answer => exact ⟨rfl, rfl, rfl, (append_nil _).symm, .inl rfl⟩

theorem Named.set (named : Named exchange) {index : Nat} {running : Running} {stage : TaskStage}
    (found : exchange.tasks[index]? = some running) (ask : next.ask = exchange.ask)
    (tasks : next.tasks = exchange.tasks.set index
      { running with task := { running.task with stage := stage } }) : Named next := by
  intro one member
  rw [tasks] at member
  rw [ask]
  rcases mem_or_eq_of_mem_set member with old | rfl
  · exact named one old
  · exact named running (mem_of_getElem? found)

theorem Named.begin (named : Named exchange) (process : Nat) (stage : TaskStage) :
    Named (exchange.begin process stage) := by
  intro one member
  rcases mem_append.mp member with old | new
  · exact named one old
  · rw [mem_singleton.mp new]
    rfl

theorem tokens_begin (exchange : Exchange) (process : Nat) {stage : TaskStage}
    (notLive : stage.live = false) : (exchange.begin process stage).tokens = exchange.tokens := by
  have same : (exchange.begin process stage).tasks.filter (fun running => running.task.stage.live) =
      exchange.tasks.filter fun running => running.task.stage.live := by
    show (exchange.tasks ++ [_]).filter _ = _
    rw [filter_append]
    refine (congrArg _ (filter_cons_of_neg ?_)).trans (append_nil _)
    exact Bool.not_eq_true _ ▸ notLive
  exact congrArg (fun live : List Running => _ + _ + live.length + _) same

/-- No operation makes a second token. -/
theorem tokens_step (named : Named exchange) {action : ExchangeAction}
    (stepped : (exchanging codec verify).step exchange action = some next) :
    next.tokens ≤ exchange.tokens ∧ Named next := by
  cases action with
  | call choice =>
    obtain ⟨folder, stage, since, reports, steps, rfl⟩ := call_cases stepped
    refine ⟨?_, named⟩
    exact Nat.add_le_add_right (Nat.add_le_add_right (Ask.tokens_le steps) _) _
  | task index choice =>
    obtain ⟨running, folder, stage, event, found, advanced, sameFolder, ask, tasks, claims, -⟩ :=
      task_cases stepped
    refine ⟨?_, named.set found ask tasks⟩
    have passed := Task.tokens_le advanced
    have request : running.task.file .request = exchange.file .request :=
      congrArg (FileName.mk · _) (named running (mem_of_getElem? found))
    rw [request] at passed
    have live : (next.tasks.filter fun running => running.task.stage.live).length +
          running.task.stage.live.toNat =
        (exchange.tasks.filter fun running => running.task.stage.live).length +
          stage.live.toNat := by
      rw [tasks]
      exact length_filter_set found (fun running => running.task.stage.live) _
    have counted : next.claims.length =
        exchange.claims.length + (event.any TaskEvent.isClaimed).toNat := by
      rw [claims, length_append]
      cases event.any TaskEvent.isClaimed <;> rfl
    have sameFile : next.file .request = exchange.file .request := by
      show next.ask.file .request = _
      rw [ask]
      rfl
    unfold Exchange.tokens
    rw [sameFolder, sameFile, ask, counted]
    omega
  | claim process =>
    cases stepped
    exact ⟨Nat.le_of_eq (tokens_begin exchange process rfl), named.begin process _⟩
  | scan process ext =>
    cases stepped
    exact ⟨Nat.le_of_eq (tokens_begin exchange process rfl), named.begin process _⟩
  | answer index answer =>
    obtain ⟨⟨process, _⟩, -, rfl⟩ := Option.map_eq_some_iff.mp stepped
    have rest : Named { exchange with cards := exchange.cards.eraseIdx index } := named
    exact ⟨Nat.le_of_eq (tokens_begin { exchange with cards := exchange.cards.eraseIdx index }
      process rfl), rest.begin process _⟩
  | drop index =>
    cases stepped
    exact ⟨Nat.le_refl _, named⟩

theorem tokens_start (codec : Codec) (process : Nat) (request : SudoRequest) :
    (Exchange.start codec process request).tokens ≤ 1 :=
  Bool.toNat_le _

theorem askedOnce_of_tokens (one : exchange.tokens ≤ 1) : AskedOnce exchange :=
  Nat.le_trans (Nat.le_add_left _ _) one

end

/-! ### What a call leaves -/

/-- A task that has found nothing yet, or is past the request. -/
def TaskStage.quiet : TaskStage → Bool
  | .lookingAtRequest | .removing _ | .checking _ _ | .scanning _ | .scanReading | .done => true
  | _ => false

/-- A task that may have a temporary file in the folder. -/
def TaskStage.hasTemp : TaskStage → Bool
  | .placing _ _ | .removingTemp _ => true
  | _ => false

def AskStage.hasTemp : AskStage → Bool
  | .placing | .removingTemp => true
  | _ => false

/-- The request has not been in the folder. -/
def AskStage.isPosting : AskStage → Bool
  | .writing | .placing | .removingTemp => true
  | _ => false

/-- The files that are not there: none before the post, and those the call has removed. -/
def AskStage.dropped : AskStage → Ext → Bool
  | .writing, .tmp _ | .placing, .tmp _ | .removingTemp, .tmp _ | .returned _, .tmp _ => false
  | .writing, _ | .placing, _ | .removingTemp, _ | .returned _, _ => true
  | .removingClaim _, .request => true
  | .removingAnswer _, .request | .removingAnswer _, .claimed => true
  | _, _ => false

structure Tidy (exchange : Exchange) : Prop where
  named : Named exchange
  late : ∀ running ∈ exchange.tasks, running.late → exchange.ask.stage.isReturned
  quiet : ∀ running ∈ exchange.tasks, running.late ∨ exchange.ask.stage.isPosting →
    running.task.stage.quiet
  dropped : ∀ ext, exchange.ask.stage.dropped ext → exchange.folder (exchange.file ext) = none
  temps : ∀ process, exchange.folder (exchange.file (.tmp process)) ≠ none →
    exchange.ask.process = process ∧ exchange.ask.stage.hasTemp ∨
      ∃ running ∈ exchange.tasks, running.task.process = process ∧ running.task.stage.hasTemp
  offered : NeverOffered exchange

theorem dropped_of_through (through : stage.isReturned ∨ stage.isPosting) :
    stage.dropped .request ∧ stage.dropped .claimed := by
  cases stage with
  | writing | placing | removingTemp | returned _ => exact ⟨rfl, rfl⟩
  | lookingForAnswer | lookingForClaim | lookingForRequest | waiting | removingRequest _
  | removingClaim _ | removingAnswer _ => rcases through with returned | posting <;> contradiction

theorem dropped_request {ext : Ext} (dropped : stage.dropped ext) :
    stage.dropped .request := by
  cases stage with
  | writing | placing | removingTemp | returned _ | removingClaim _ | removingAnswer _ => rfl
  | lookingForAnswer | lookingForClaim | lookingForRequest | waiting | removingRequest _ =>
    cases dropped

/-- What is removed while the claim may still be there. -/
theorem removingClaim_of_dropped {ext : Ext} (dropped : stage.dropped ext)
    (claim : stage.dropped .claimed = false) : stage.isRemovingClaim := by
  cases stage with
  | writing | placing | removingTemp | returned _ | removingAnswer _ => cases claim
  | removingClaim _ => rfl
  | lookingForAnswer | lookingForClaim | lookingForRequest | waiting | removingRequest _ =>
    cases dropped

theorem through_of_dropped_answer (dropped : stage.dropped .answer) :
    stage.isReturned ∨ stage.isPosting := by
  cases stage with
  | writing | placing | removingTemp => exact .inr rfl
  | returned _ => exact .inl rfl
  | lookingForAnswer | lookingForClaim | lookingForRequest | waiting | removingRequest _
  | removingClaim _ | removingAnswer _ => cases dropped

theorem not_dropped_tmp (stage : AskStage) (process : Nat) :
    stage.dropped (.tmp process) = false := by
  cases stage <;> rfl

/-- A task that has found nothing finds nothing where there is nothing. -/
theorem Task.quiet_of_advance {stage : TaskStage} (quiet : task.stage.quiet)
    (noRequest : folder (task.file .request) = none) (noClaim : folder (task.file .claimed) = none)
    (advanced : task.advance codec folder choice = some (after, stage, event)) :
    stage.quiet ∧ event.any TaskEvent.isClaimed = false ∧
      ∀ request, event ≠ some (.offered request) := by
  unfold Task.advance at advanced
  cases here : task.stage with
  | lookingAtRequest =>
    simp only [here] at advanced
    rw [noRequest] at advanced
    cases advanced
    exact ⟨rfl, rfl, nofun⟩
  | removing ext =>
    rw [here] at advanced
    cases advanced
    exact ⟨rfl, rfl, nofun⟩
  | checking answer refusing =>
    have notThere : folder.isThere (task.file .claimed) = false :=
      congrArg (Option.any Entry.there) noClaim
    simp only [here] at advanced
    rw [notThere] at advanced
    cases advanced
    exact ⟨rfl, rfl, nofun⟩
  | scanning ext =>
    simp only [here] at advanced
    split at advanced
    · cases advanced
      exact ⟨rfl, rfl, nofun⟩
    · cases advanced
      refine ⟨?_, rfl, nofun⟩
      split <;> rfl
  | scanReading =>
    have failed : readRequestFile folder (task.file .request) choice.fails = .failed := by
      unfold readRequestFile
      rw [noRequest]
      split <;> rfl
    simp only [here] at advanced
    rw [failed] at advanced
    cases advanced
    exact ⟨rfl, rfl, nofun⟩
  | done =>
    rw [here] at advanced
    cases advanced
  | taking _ | reading | puttingBack | writing _ _ | placing _ _ | removingTemp _ =>
    rw [here] at quiet
    cases quiet

/-- A task that may have a temporary file has it no more when it is past it. -/
theorem Task.temp_of_advance {stage : TaskStage} (reliable : choice.fails = true → task.stage.reads)
    (had : task.stage.hasTemp)
    (advanced : task.advance codec folder choice = some (after, stage, event)) :
    stage.hasTemp ∨ after task.temp = none := by
  unfold Task.advance at advanced
  cases here : task.stage with
  | placing answer refusing =>
    simp only [here] at advanced
    split at advanced
    · rename_i renamed _
      cases advanced
      exact .inr (Folder.rename_spec renamed (task_file_ne nofun)).2.1
    · cases advanced
      exact .inl rfl
  | removingTemp refusing =>
    have works : choice.fails = false := by
      cases fails : choice.fails with
      | false => rfl
      | true =>
        rw [here] at reliable
        exact absurd (reliable fails) Bool.false_ne_true
    rw [here, works] at advanced
    cases advanced
    exact .inr (folder.remove_self task.temp)
  | lookingAtRequest | taking _ | reading | puttingBack | removing _ | checking _ _ | writing _ _
  | scanning _ | scanReading | done =>
    rw [here] at had
    cases had

/-- Only a task that writes makes a temporary file, and has it then. -/
theorem Task.temp_of_steps {stage : TaskStage}
    (advanced : task.advance codec folder choice = some (after, stage, event)) {process : Nat}
    (isThere : after (task.file (.tmp process)) ≠ none) :
    folder (task.file (.tmp process)) ≠ none ∨ task.process = process ∧ stage.hasTemp := by
  have ofRename : ∀ {source target : Ext},
      folder.rename (task.file source) (task.file target) = some after → source ≠ target →
        target ≠ .tmp process → folder (task.file (.tmp process)) ≠ none := by
    intro source target renamed ne notTarget
    obtain ⟨-, gone, -, rest⟩ := Folder.rename_spec renamed (task_file_ne ne)
    by_cases isSource : source = .tmp process
    · rw [← isSource] at isThere
      exact absurd gone isThere
    · rwa [rest _ (task_file_ne (Ne.symm isSource)) (task_file_ne (Ne.symm notTarget))] at isThere
  cases Task.steps_of_advance advanced with
  | stays | claims | finds => exact .inl isThere
  | takes scanning here renamed => exact .inl (ofRename renamed nofun nofun)
  | putsBack here renamed => exact .inl (ofRename renamed nofun nofun)
  | removes ext here => exact .inl fun missing => isThere (Folder.dropFile_of_none missing _ _)
  | places answer refusing here renamed => exact .inl (ofRename renamed nofun nofun)
  | dropsTemp refusing here =>
    exact .inl fun missing => isThere (Folder.dropFile_of_none missing _ _)
  | writes answer refusing here =>
    by_cases same : task.process = process
    · exact .inr ⟨same, rfl⟩
    · refine .inl ?_
      have other : task.file (.tmp process) ≠ task.temp :=
        task_file_ne fun isSame => same (Ext.tmp.inj isSame).symm
      rwa [Folder.write_of_ne _ other] at isThere

section

variable {exchange next : Exchange}

variable {choice : Choice}

/-- What the call has removed stays away, while nothing is put back. -/
theorem Tidy.dropped_of_steps (tidy : Tidy exchange) {index : Nat} {running : Running}
    (found : exchange.tasks[index]? = some running) {after : Folder} {stage : TaskStage}
    {event : Option TaskEvent}
    (steps : running.task.Steps codec exchange.folder choice.fails after stage event)
    (putsBack : PutsNothingBack exchange (.task index choice)) {ext : Ext}
    (dropped : exchange.ask.stage.dropped ext) : after (exchange.file ext) = none := by
  have member := mem_of_getElem? found
  have file : running.task.file = exchange.file := funext fun ext =>
    congrArg (FileName.mk · ext) (tidy.named running member)
  have temp : running.task.temp = exchange.file (.tmp running.task.process) := congrFun file _
  have ne : ∀ {first second : Ext}, first ≠ second → exchange.file first ≠ exchange.file second :=
    fun ne same => ne (congrArg FileName.ext same)
  have notTmp : ∀ process, ext ≠ .tmp process := fun process isTmp => by
    rw [isTmp, not_dropped_tmp] at dropped
    cases dropped
  obtain ⟨noClaim, noAnswer⟩ := putsBack running found
  have missing := tidy.dropped ext dropped
  cases steps with
  | stays | claims | finds => exact missing
  | takes scanning here renamed =>
    rw [file] at renamed
    obtain ⟨-, -, wasThere, -⟩ := Folder.rename_spec renamed (ne nofun)
    rw [tidy.dropped .request (dropped_request dropped)] at wasThere
    cases wasThere
  | putsBack here renamed =>
    rw [file] at renamed noClaim
    obtain ⟨-, -, wasThere, -⟩ := Folder.rename_spec renamed (ne nofun)
    cases claim : exchange.ask.stage.dropped .claimed with
    | true =>
      rw [tidy.dropped .claimed claim] at wasThere
      cases wasThere
    | false =>
      rw [noClaim here (removingClaim_of_dropped dropped claim)] at wasThere
      cases wasThere
  | removes _ _ | dropsTemp _ _ => exact Folder.dropFile_of_none missing _ _
  | writes answer refusing here =>
    rw [temp]
    exact (Folder.write_of_ne _ (ne (notTmp _))).trans missing
  | places answer refusing here renamed =>
    rw [temp] at renamed noAnswer
    rw [file] at renamed
    obtain ⟨-, -, wasThere, rest⟩ := Folder.rename_spec renamed (ne nofun)
    by_cases isAnswer : ext = .answer
    · rw [isAnswer] at dropped
      rcases through_of_dropped_answer dropped with returned | posting
      · rw [noAnswer (by rw [here]; rfl) returned] at wasThere
        cases wasThere
      · have quiet := tidy.quiet running member (.inr posting)
        rw [here] at quiet
        cases quiet
    · exact (rest _ (ne (notTmp _)) (ne isAnswer)).trans missing

theorem Tidy.task_step (tidy : Tidy exchange) {index : Nat}
    (reliable : Reliable exchange (.task index choice))
    (putsBack : PutsNothingBack exchange (.task index choice))
    (advanced : exchange.advanceTask codec index choice = some next) : Tidy next := by
  obtain ⟨running, folder, stage, event, found, stepped, isFolder, ask, tasks, claims, offers⟩ :=
    task_cases advanced
  have member := mem_of_getElem? found
  have named := tidy.named running member
  have file : running.task.file = exchange.file := funext fun ext =>
    congrArg (FileName.mk · ext) named
  have nextFile : next.file = exchange.file := funext fun ext => by
    show next.ask.file ext = _
    rw [ask]
    rfl
  -- A task that had nothing still has nothing, and has told nobody of anything.
  have still : running.late ∨ exchange.ask.stage.isPosting →
      stage.quiet ∧ event.any TaskEvent.isClaimed = false ∧
        ∀ request, event ≠ some (.offered request) := by
    intro early
    have through : exchange.ask.stage.isReturned ∨ exchange.ask.stage.isPosting :=
      early.imp_left (tidy.late running member)
    obtain ⟨noRequest, noClaim⟩ := dropped_of_through through
    refine Task.quiet_of_advance (tidy.quiet running member early) ?_ ?_ stepped
    · rw [file]
      exact tidy.dropped _ noRequest
    · rw [file]
      exact tidy.dropped _ noClaim
  refine
    { named := tidy.named.set found ask tasks, late := ?_, quiet := ?_, dropped := ?_, temps := ?_
      offered := ?_ }
  · intro one inTasks
    rw [tasks] at inTasks
    rw [ask]
    rcases mem_or_eq_of_mem_set inTasks with old | rfl
    · exact tidy.late one old
    · exact tidy.late running member
  · intro one inTasks
    rw [tasks] at inTasks
    rw [ask]
    rcases mem_or_eq_of_mem_set inTasks with old | rfl
    · exact tidy.quiet one old
    · exact fun early => (still early).1
  · intro ext
    rw [ask, nextFile, isFolder]
    exact tidy.dropped_of_steps found (Task.steps_of_advance stepped) putsBack
  · intro process isThere
    rw [ask, tasks]
    rw [isFolder, nextFile, ← file] at isThere
    obtain ⟨bound, -⟩ := List.getElem?_eq_some_iff.mp found
    have inNext := mem_set bound
      ({ running with task := { running.task with stage := stage } } : Running)
    rcases Task.temp_of_steps stepped isThere with before | ⟨same, has⟩
    · rw [file] at before
      rcases tidy.temps process before with asks | ⟨one, inTasks, isOne, has⟩
      · exact .inl asks
      · rcases mem_set_of_mem found inTasks with rfl | stays
        · rcases Task.temp_of_advance (reliable one found) has stepped with stillHas | gone
          · exact .inr ⟨_, inNext, isOne, stillHas⟩
          · rw [← isOne] at isThere
            exact absurd gone isThere
        · exact .inr ⟨one, stays, isOne, has⟩
    · exact .inr ⟨_, inNext, same, has⟩
  · constructor
    · rw [claims]
      intro late
      rcases mem_append.mp late with old | new
      · exact tidy.offered.1 old
      · cases isLate : running.late with
        | true =>
          rw [(still (.inl isLate)).2.1] at new
          cases new
        | false =>
          rw [isLate] at new
          split at new
          · exact absurd (mem_singleton.mp new) nofun
          · cases new
    · rcases offers with same | ⟨⟨request, isEvent⟩, added⟩
      · rw [same]
        exact tidy.offered.2
      · rw [added]
        intro late
        rcases mem_append.mp late with old | new
        · exact tidy.offered.2 old
        · exact (still (.inl (mem_singleton.mp new).symm)).2.2 request isEvent

theorem Tidy.call_step (tidy : Tidy exchange) (reliable : choice.fails = false)
    (advanced : exchange.advanceCall codec verify choice = some next) : Tidy next := by
  obtain ⟨folder, stage, since, reports, steps, rfl⟩ := call_cases advanced
  have ne : ∀ {first second : Ext}, first ≠ second → exchange.file first ≠ exchange.file second :=
    fun ne same => ne (congrArg FileName.ext same)
  -- A call that goes on is not through, so no task has begun after it.
  have notThrough : exchange.ask.stage.isReturned = false := by
    cases here : exchange.ask.stage with
    | returned outcome =>
      unfold Exchange.advanceCall Ask.advance at advanced
      rw [here] at advanced
      cases advanced
    | writing | placing | removingTemp | lookingForAnswer | lookingForClaim | lookingForRequest
    | waiting | removingRequest _ | removingClaim _ | removingAnswer _ => rfl
  have noneLate : ∀ running ∈ exchange.tasks, running.late = false := by
    intro running member
    cases isLate : running.late with
    | false => rfl
    | true =>
      have returned := tidy.late running member isLate
      rw [notThrough] at returned
      cases returned
  have late : ∀ running ∈ exchange.tasks, running.late → stage.isReturned := by
    intro running member isLate
    rw [noneLate running member] at isLate
    cases isLate
  have quiet : (stage.isPosting → exchange.ask.stage.isPosting) →
      ∀ running ∈ exchange.tasks, running.late ∨ stage.isPosting → running.task.stage.quiet := by
    intro posting running member early
    refine tidy.quiet running member ?_
    exact early.imp_right posting
  have temps : ∀ {ext : Ext}, folder = exchange.folder.remove (exchange.file ext) →
      ∀ process, folder (exchange.file (.tmp process)) ≠ none →
        ext ≠ .tmp process ∧ (exchange.ask.process = process ∧ exchange.ask.stage.hasTemp ∨
          ∃ running ∈ exchange.tasks, running.task.process = process ∧
            running.task.stage.hasTemp) := by
    intro ext isRemoved process isThere
    rw [isRemoved] at isThere
    by_cases same : Ext.tmp process = ext
    · rw [same] at isThere
      exact absurd (Folder.remove_self ..) isThere
    · rw [Folder.remove_of_ne (ne same)] at isThere
      exact ⟨Ne.symm same, tidy.temps process isThere⟩
  have ofOthers : ∀ {process : Nat}, exchange.ask.stage.hasTemp = false →
      (exchange.ask.process = process ∧ exchange.ask.stage.hasTemp ∨
        ∃ running ∈ exchange.tasks, running.task.process = process ∧
          running.task.stage.hasTemp) →
      exchange.ask.process = process ∧ stage.hasTemp ∨
        ∃ running ∈ exchange.tasks, running.task.process = process ∧
          running.task.stage.hasTemp := by
    intro process noTemp owner
    refine owner.imp_left fun asks => ?_
    rw [noTemp] at asks
    exact absurd asks.2 Bool.false_ne_true
  have tidies : (stage.isPosting → exchange.ask.stage.isPosting) →
      (∀ ext, stage.dropped ext → folder (exchange.file ext) = none) →
      (∀ process, folder (exchange.file (.tmp process)) ≠ none →
        exchange.ask.process = process ∧ stage.hasTemp ∨
          ∃ running ∈ exchange.tasks, running.task.process = process ∧
            running.task.stage.hasTemp) →
      Tidy { exchange with
        folder := folder
        ask := { exchange.ask with stage := stage }
        since := since
        reports := reports } :=
    fun posting dropped temps =>
      { named := tidy.named, late := late, quiet := quiet posting, dropped := dropped
        temps := temps, offered := tidy.offered }
  have wasDropped := tidy.dropped
  rw [reliable] at steps
  cases steps with
  | writes here =>
    rw [here] at wasDropped
    refine tidies (fun _ => by rw [here]; rfl) (fun ext dropped => ?_) fun process isThere => ?_
    · have notTmp : ext ≠ .tmp exchange.ask.process := fun isTmp => by
        rw [isTmp] at dropped
        cases dropped
      refine (Folder.write_of_ne _ (ne notTmp)).trans (wasDropped ext ?_)
      cases ext <;> exact dropped
    · by_cases same : exchange.ask.process = process
      · exact .inl ⟨same, rfl⟩
      · have other : Ext.tmp process ≠ .tmp exchange.ask.process :=
          fun isSame => same (Ext.tmp.inj isSame).symm
        refine ofOthers (by rw [here]; rfl) (tidy.temps process ?_)
        exact fun none => isThere ((Folder.write_of_ne _ (ne other)).trans none)
  | gives_up here =>
    have posting : exchange.ask.stage.isPosting := by
      rcases here with ⟨here, -⟩ | here <;> rw [here] <;> rfl
    refine tidies (fun _ => posting) (fun ext dropped => wasDropped ext ?_) fun process isThere => ?_
    · rcases here with ⟨here, -⟩ | here <;>
      · rw [here]
        cases ext <;> exact dropped
    · exact (tidy.temps process isThere).imp_left fun asks => ⟨asks.1, rfl⟩
  | posts here renamed =>
    refine tidies nofun (fun ext dropped => by cases dropped) fun process isThere => ?_
    obtain ⟨-, gone, -, rest⟩ := Folder.rename_spec renamed (ne nofun)
    by_cases same : exchange.ask.process = process
    · rw [← same] at isThere
      exact absurd gone isThere
    · have other : Ext.tmp process ≠ .tmp exchange.ask.process :=
        fun isSame => same (Ext.tmp.inj isSame).symm
      have kept := rest (exchange.file (.tmp process)) (ne other) (ne nofun)
      exact .inr ((tidy.temps process (kept ▸ isThere)).resolve_left fun asks => same asks.1)
  | dropsTemp here =>
    rw [here] at wasDropped
    refine tidies nofun (fun ext dropped => ?_) fun process isThere => ?_
    · have notTmp : ext ≠ .tmp exchange.ask.process := fun isTmp => by
        rw [isTmp] at dropped
        cases dropped
      refine (Folder.remove_of_ne (ne notTmp)).trans (wasDropped ext ?_)
      cases ext <;> exact dropped
    · obtain ⟨other, owner⟩ := temps rfl process isThere
      exact .inr (owner.resolve_left fun asks => other (congrArg Ext.tmp asks.1))
  | polls here goesOn =>
    have noTemp : exchange.ask.stage.hasTemp = false := by
      rcases here with here | here | here | here <;> rw [here] <;> rfl
    refine tidies (fun posting => ?_) (fun ext dropped => ?_) fun process isThere =>
      ofOthers noTemp (tidy.temps process isThere)
    · rcases goesOn with rfl | rfl | rfl | rfl | ⟨outcome, rfl⟩ <;> cases posting
    · rcases goesOn with rfl | rfl | rfl | rfl | ⟨outcome, rfl⟩ <;> cases dropped
  | dropsRequest outcome here =>
    refine tidies nofun (fun ext dropped => ?_) fun process isThere =>
      ofOthers (by rw [here]; rfl) (temps rfl process isThere).2
    cases ext with
    | request => exact Folder.remove_self ..
    | claimed | answer | tmp _ => cases dropped
  | dropsClaim outcome here =>
    rw [here] at wasDropped
    refine tidies nofun (fun ext dropped => ?_) fun process isThere =>
      ofOthers (by rw [here]; rfl) (temps rfl process isThere).2
    cases ext with
    | request =>
      have other : exchange.file .request ≠ exchange.file .claimed := ne nofun
      exact (Folder.remove_of_ne other).trans (wasDropped .request rfl)
    | claimed => exact Folder.remove_self ..
    | answer | tmp _ => cases dropped
  | dropsAnswer outcome here =>
    rw [here] at wasDropped
    refine tidies nofun (fun ext dropped => ?_) fun process isThere =>
      ofOthers (by rw [here]; rfl) (temps rfl process isThere).2
    cases ext with
    | request =>
      have other : exchange.file .request ≠ exchange.file .answer := ne nofun
      exact (Folder.remove_of_ne other).trans (wasDropped .request rfl)
    | claimed =>
      have other : exchange.file .claimed ≠ exchange.file .answer := ne nofun
      exact (Folder.remove_of_ne other).trans (wasDropped .claimed rfl)
    | answer => exact Folder.remove_self ..
    | tmp _ => cases dropped

/-- A task begins: it has nothing. -/
theorem Tidy.begin (tidy : Tidy exchange) (process : Nat) {stage : TaskStage}
    (quiet : stage.quiet) : Tidy (exchange.begin process stage) where
  named := tidy.named.begin process stage
  late := by
    intro running member isLate
    rcases mem_append.mp member with old | new
    · exact tidy.late running old isLate
    · rw [mem_singleton.mp new] at isLate
      exact isLate
  quiet := by
    intro running member early
    rcases mem_append.mp member with old | new
    · exact tidy.quiet running old early
    · rw [mem_singleton.mp new]
      exact quiet
  dropped := tidy.dropped
  temps := by
    intro other isThere
    refine (tidy.temps other isThere).imp_right ?_
    rintro ⟨running, member, owns⟩
    exact ⟨running, mem_append_left _ member, owns⟩
  offered := tidy.offered

theorem Tidy.step (tidy : Tidy exchange) {action : ExchangeAction}
    (reliable : Reliable exchange action) (putsBack : PutsNothingBack exchange action)
    (stepped : (exchanging codec verify).step exchange action = some next) : Tidy next := by
  cases action with
  | call choice => exact tidy.call_step reliable stepped
  | task index choice => exact tidy.task_step reliable putsBack stepped
  | claim process =>
    cases stepped
    exact tidy.begin process rfl
  | scan process ext =>
    cases stepped
    exact tidy.begin process rfl
  | answer index answer =>
    obtain ⟨⟨process, _⟩, -, rfl⟩ := Option.map_eq_some_iff.mp stepped
    have rest : Tidy { exchange with cards := exchange.cards.eraseIdx index } :=
      { tidy with }
    exact rest.begin process rfl
  | drop index =>
    cases stepped
    exact { tidy with }

theorem tidy_start (codec : Codec) (process : Nat) (request : SudoRequest) :
    Tidy (.start codec process request) where
  named := forall_mem_nil _
  late := forall_mem_nil _
  quiet := forall_mem_nil _
  dropped := fun _ _ => rfl
  temps := fun _ isThere => absurd rfl isThere
  offered := ⟨not_mem_nil, not_mem_nil⟩

theorem Tidy.cleanedUp (tidy : Tidy exchange) : CleanedUp exchange := by
  rintro ⟨returned, finished⟩ ext
  cases here : exchange.ask.stage with
  | returned outcome =>
    have dropped := tidy.dropped
    rw [here] at dropped
    cases ext with
    | request => exact dropped .request rfl
    | claimed => exact dropped .claimed rfl
    | answer => exact dropped .answer rfl
    | tmp process =>
      by_contra isThere
      rcases tidy.temps process isThere with ⟨-, asks⟩ | ⟨running, member, -, has⟩
      · rw [here] at asks
        cases asks
      · cases isLate : running.late with
        | true =>
          have quiet := tidy.quiet running member (.inl isLate)
          cases stage : running.task.stage <;> rw [stage] at has quiet <;> contradiction
        | false =>
          rw [finished running member isLate] at has
          cases has
  | writing | placing | removingTemp | lookingForAnswer | lookingForClaim | lookingForRequest
  | waiting | removingRequest _ | removingClaim _ | removingAnswer _ =>
    rw [here] at returned
    cases returned

end

/-! ### Every run -/

/-- However the operations interleave, a request is asked once; and where nothing of it is put back
while its call withdraws, nothing of it remains and nobody is offered it afterwards. -/
theorem askedOnce_of_run {process : Nat} {request : SudoRequest} {actions : List ExchangeAction}
    {final : Exchange}
    (ran : (exchanging codec verify).run (.start codec process request) actions = some final) :
    AskedOnce final ∧
      ((exchanging codec verify).Along
          (fun exchange action => Reliable exchange action ∧ PutsNothingBack exchange action)
          (.start codec process request) actions →
        CleanedUp final ∧ NeverOffered final) := by
  refine ⟨?_, fun assumed => ?_⟩
  · have one : final.tokens ≤ 1 ∧ Named final := Machine.invariant
      (fun exchange _ next (holds : exchange.tokens ≤ 1 ∧ Named exchange) (_ : True) stepped =>
        have kept := tokens_step holds.2 stepped
        ⟨Nat.le_trans kept.1 holds.1, kept.2⟩)
      ⟨tokens_start codec process request, forall_mem_nil _⟩
      (Machine.along_true _ _ _) ran
    exact askedOnce_of_tokens one.1
  · have tidy : Tidy final := Machine.invariant
      (fun _ _ _ tidy assumed stepped => tidy.step assumed.1 assumed.2 stepped)
      (tidy_start codec process request) assumed ran
    exact ⟨tidy.cleanedUp, tidy.offered⟩

/-! ### Two runs -/

instance (exchange : Exchange) : ∀ action, Decidable (PutsNothingBack exchange action)
  | .task index _ => inferInstanceAs (Decidable (∀ running ∈ exchange.tasks[index]?,
      (running.task.stage = .puttingBack → exchange.ask.stage.isRemovingClaim →
        exchange.folder (running.task.file .claimed) = none) ∧
      (running.task.stage.isPlacing → exchange.ask.stage.isReturned →
        exchange.folder running.task.temp = none)))
  | .call _ | .claim _ | .scan _ _ | .answer _ _ | .drop _ => isTrue trivial

def cancelling : Choice := { Choice.plain with cancelled := true }

def failing : Choice := { Choice.plain with fails := true }

/-- A claim waits for a person, and the call is cancelled. -/
def cancelledRun : List ExchangeAction :=
  [.call .plain, .call .plain, .claim 2, .task 0 .plain, .task 0 .plain, .task 0 .plain,
    .call .plain, .call .plain, .call cancelling, .call .plain, .call .plain, .call .plain,
    .claim 3, .task 1 .plain]

/-- Whether the call is through, and so is every task. -/
def Exchange.through (exchange : Exchange) : Bool :=
  exchange.ask.stage.isReturned && exchange.tasks.all fun running => running.task.stage = .done

theorem isSettled_of_through {exchange : Exchange} (through : exchange.through) :
    exchange.isSettled := by
  obtain ⟨returned, tasks⟩ := Bool.and_eq_true_iff.mp through
  exact ⟨returned, fun running member _ => of_decide_eq_true (all_eq_true.mp tasks running member)⟩

theorem askedOnce_cancelledRun : ∃ final,
    (exchanging refusalCodec refuseAll).run (.start refusalCodec 1 sampleRequest) cancelledRun =
        some final ∧
      AskedOnce final ∧ final.claims ≠ [] ∧ final.isSettled ∧
      (∀ ext, final.folder (final.file ext) = none) ∧ NeverOffered final := by
  have through : ((exchanging refusalCodec refuseAll).run (.start refusalCodec 1 sampleRequest)
      cancelledRun).any (fun final => final.through && decide (final.claims ≠ [])) = true := by
    decide +kernel
  have assumed : (exchanging refusalCodec refuseAll).Along
      (fun exchange action => Reliable exchange action ∧ PutsNothingBack exchange action)
      (.start refusalCodec 1 sampleRequest) cancelledRun := by
    decide +kernel
  obtain ⟨final, ran, isThrough⟩ := (Option.any_eq_true _ _).mp through
  obtain ⟨settled, someClaim⟩ := Bool.and_eq_true_iff.mp isThrough
  obtain ⟨once, cleans⟩ := askedOnce_of_run ran
  obtain ⟨cleaned, never⟩ := cleans assumed
  have isSettled := isSettled_of_through settled
  exact ⟨final, ran, once, of_decide_eq_true someClaim, isSettled, cleaned isSettled, never⟩

/-- The read of a claim fails, the call is cancelled, and the claim is put back when the call has
removed the request: an app that looks later is offered it. -/
def putBackBetween : List ExchangeAction :=
  [.call .plain, .call .plain, .claim 2, .task 0 .plain, .task 0 .plain, .call .plain, .call .plain,
    .task 0 failing, .call cancelling, .call .plain, .task 0 .plain, .call .plain, .call .plain,
    .scan 3 .request, .task 1 .plain, .task 1 .plain]

theorem not_cleanedUp_putBackBetween :
    (exchanging refusalCodec refuseAll).Along Reliable (.start refusalCodec 1 sampleRequest)
        putBackBetween ∧
      ∃ final, (exchanging refusalCodec refuseAll).run (.start refusalCodec 1 sampleRequest)
          putBackBetween = some final ∧
        ¬CleanedUp final ∧ ¬NeverOffered final := by
  refine ⟨by decide +kernel, ?_⟩
  have remains : ((exchanging refusalCodec refuseAll).run (.start refusalCodec 1 sampleRequest)
      putBackBetween).any (fun final => final.through &&
        (final.folder (final.file .request)).isSome && decide (true ∈ final.offers)) = true := by
    decide +kernel
  obtain ⟨final, ran, verdict⟩ := (Option.any_eq_true _ _).mp remains
  obtain ⟨rest, offered⟩ := Bool.and_eq_true_iff.mp verdict
  obtain ⟨through, isThere⟩ := Bool.and_eq_true_iff.mp rest
  refine ⟨final, ran, fun cleaned => ?_, fun never => never.2 (of_decide_eq_true offered)⟩
  rw [cleaned (isSettled_of_through through) .request] at isThere
  cases isThere

end Oryxis.Consent

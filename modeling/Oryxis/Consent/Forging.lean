/-
This file proves that an allowance cannot be forged, swapped or replayed.

Any number of calls and of app tasks take their steps on one folder, and between any
two of them an adversary may put any folder in its place. What it writes carries a tag
of the vault only if an app has produced that tag. A call that returns an allowance has
checked the tag over the bytes it posted itself, so an app with the vault unlocked has
tagged these bytes, as it read them at a claim and showed them, and this decision.
-/

import Oryxis.Consent.Steps
import Oryxis.Library.Machine

namespace Oryxis.Consent

open Library List

variable {Key : Type*}

/-! ### The folder, its processes and the adversary -/

/-- A tag an app produced: with which vaults unlocked, for what decision, over which bytes, and
the request it had shown for them. -/
structure Production where
  process : Nat
  unlocked : List Nat
  vaultId : Nat
  decision : Decision
  bytes : Bytes
  shown : SudoRequest

/-- A call, and how many tags had been produced when it began. -/
structure Call where
  ask : Ask
  before : Nat

/-- `claims` keeps every claim that came to something, and `produced` every tag. -/
structure World where
  folder : Folder
  calls : List Call
  tasks : List Task
  cards : List (Nat × Claimed)
  unlocked : Nat → List Nat
  claims : List (Nat × Claimed)
  produced : List Production

inductive WorldAction
  | ask (process : Nat) (request : SudoRequest)
  | advanceCall (index : Nat) (choice : Choice)
  | claim (process : Nat) (id : String)
  | scan (process : Nat) (id : String) (ext : Ext)
  | advanceTask (index : Nat) (choice : Choice)
  | answer (index : Nat) (decision : Decision) (reason : Option DenyReason)
  | drop (index : Nat)
  | setUnlocked (process : Nat) (vaults : List Nat)
  | adversary (folder : Folder)

/-- What the code is given: how files are written and read, the code of authentication, and the
master key of each vault. -/
structure Setting (Key : Type*) where
  codec : Codec
  mac : Mac Key
  masterKey : Nat → Key

namespace World

/-- A claim that came to something is asked, unless the app holds that request already. -/
def hold (world : World) (process : Nat) (claimed : Claimed) : World :=
  { world with
    claims := world.claims ++ [(process, claimed)]
    cards :=
      if world.cards.any fun card => card.1 = process && card.2.request.id = claimed.request.id then
        world.cards
      else world.cards ++ [(process, claimed)] }

def observe (world : World) (process : Nat) : Option TaskEvent → World
  | some (.claimed claimed) => world.hold process claimed
  | _ => world

def start (world : World) (task : Task) : Option World :=
  if validId task.id then some { world with tasks := world.tasks ++ [task] } else none

/-- The answer to a card: an allowance is tagged under its vault's key, and is a refusal where that
vault is locked. -/
def mcpSudoAnswer (world : World) (setting : Setting Key) (process : Nat) (card : Claimed)
    (decision : Decision) (reason : Option DenyReason) : Answer × Option Production :=
  let vaultId := card.request.vaultId
  if !decision.allows then (⟨.deny, reason, ""⟩, none)
  else if vaultId ∈ world.unlocked process then
    (⟨decision, none, setting.mac.mcpConsentTag (setting.masterKey vaultId) card.bytes decision⟩,
      some ⟨process, world.unlocked process, vaultId, decision, card.bytes, card.request⟩)
  else (⟨.deny, some .locked, ""⟩, none)

def answerCard (world : World) (setting : Setting Key) (index : Nat) (decision : Decision)
    (reason : Option DenyReason) : Option World :=
  (world.cards[index]?).map fun (process, card) =>
    let answered := world.mcpSudoAnswer setting process card decision reason
    { world with
      cards := world.cards.eraseIdx index
      tasks := world.tasks ++ [⟨process, card.request.id, .checking answered.1 false⟩]
      produced := world.produced ++ answered.2.toList }

def advanceCall (world : World) (setting : Setting Key) (index : Nat) (choice : Choice) :
    Option World := do
  let call ← world.calls[index]?
  let key := if choice.locked then none else some (setting.masterKey call.ask.request.vaultId)
  let (folder, stage) ←
    call.ask.advance setting.codec (setting.mac.verifyMcpConsentTag key) world.folder choice
  return { world with
    folder := folder
    calls := world.calls.set index { call with ask := { call.ask with stage := stage } } }

def advanceTask (world : World) (setting : Setting Key) (index : Nat) (choice : Choice) :
    Option World := do
  let task ← world.tasks[index]?
  let (folder, stage, event) ← task.advance setting.codec world.folder choice
  return { world with
    folder := folder
    tasks := world.tasks.set index { task with stage := stage } }.observe task.process event

end World

def Setting.machine (setting : Setting Key) : Machine World WorldAction where
  step world
    | .ask process request => some { world with
        calls := world.calls ++ [⟨.start setting.codec process request, world.produced.length⟩] }
    | .advanceCall index choice => world.advanceCall setting index choice
    | .claim process id => world.start ⟨process, id, .lookingAtRequest⟩
    | .scan process id ext => world.start ⟨process, id, .scanning ext⟩
    | .advanceTask index choice => world.advanceTask setting index choice
    | .answer index decision reason => world.answerCard setting index decision reason
    | .drop index => some { world with cards := world.cards.eraseIdx index }
    | .setUnlocked process vaults => some { world with
        unlocked := Function.update world.unlocked process vaults }
    | .adversary folder => some { world with folder := folder }

def World.empty : World where
  folder := fun _ => none
  calls := []
  tasks := []
  cards := []
  unlocked := fun _ => []
  claims := []
  produced := []

/-! ### What is assumed and what is to hold -/

section

variable (setting : Setting Key) (vault : Nat)

/-- The tag an answer carries is none of the vault's, or one that an app has produced. -/
def Answer.Unforged (produced : List Production) (answer : Answer) : Prop :=
  ∀ request decision,
    unhex answer.tag =
        some (setting.mac.consentMac (setting.masterKey vault) request decision) →
      ∃ one ∈ produced, setting.mac.consentMac (setting.masterKey one.vaultId) one.bytes one.decision =
        setting.mac.consentMac (setting.masterKey vault) request decision

/-- The same of bytes, where they are an answer file. -/
def Unforged (produced : List Production) (bytes : Bytes) : Prop :=
  ∀ answer, setting.codec.decodeAnswer bytes = some answer →
    answer.Unforged setting vault produced

/-- What is read somewhere in a folder. -/
def Folder.Has (folder : Folder) (bytes : Bytes) : Prop :=
  ∃ name entry, folder name = some entry ∧ entry.content = some bytes

/-- A request that is posted can be read back and is not an answer, and its id is new: no app has
tagged a request of that id. The adversary writes no tag of the vault that no app has produced. -/
def Assumed (world : World) : WorldAction → Prop
  | .ask _ request =>
    setting.codec.decodeRequest (setting.codec.encodeRequest request) = some request ∧
      setting.codec.decodeAnswer (setting.codec.encodeRequest request) = none ∧
      ∀ one ∈ world.produced, one.shown.id ≠ request.id
  | .adversary folder => ∀ bytes, folder.Has bytes → Unforged setting vault world.produced bytes
  | _ => True

end

/-- An app with the vault unlocked tagged this decision over the bytes this call posted, as it read
them from a claimed file and showed them, and did so after the call began. -/
def Call.Granted (world : World) (call : Call) (decision : Decision) : Prop :=
  ∃ one ∈ world.produced.drop call.before,
    one.decision = decision ∧ one.bytes = call.ask.bytes ∧ one.shown = call.ask.request ∧
      (one.process, ⟨one.shown, one.bytes⟩) ∈ world.claims ∧
      one.vaultId = call.ask.request.vaultId ∧ one.vaultId ∈ one.unlocked

/-- The calls for the vault return an allowance only where it was granted. -/
def GrantedOnly (vault : Nat) (world : World) : Prop :=
  ∀ call ∈ world.calls, call.ask.request.vaultId = vault → ∀ decision,
    call.ask.stage = .returned (.ok decision) → decision.allows ∧ call.Granted world decision

/-! ### What is read after a step -/

variable {folder : Folder} {name : FileName} {bytes : Bytes}

theorem Folder.has_of_remove (has : (folder.remove name).Has bytes) : folder.Has bytes := by
  obtain ⟨other, entry, found, content⟩ := has
  by_cases same : other = name
  · subst same
    rw [Folder.remove, Function.update_self] at found
    cases found
  · rw [Folder.remove, Function.update_of_ne same] at found
    exact ⟨other, entry, found, content⟩

theorem Folder.has_of_put {entry : Entry} (has : (folder.put name entry).Has bytes) :
    folder.Has bytes ∨ entry.content = some bytes := by
  obtain ⟨other, found, isFound, content⟩ := has
  by_cases same : other = name
  · subst same
    rw [Folder.put, Function.update_self] at isFound
    cases isFound
    exact .inr content
  · rw [Folder.put, Function.update_of_ne same] at isFound
    exact .inl ⟨other, found, isFound, content⟩

theorem Folder.has_of_rename {renamed : Folder} {source target : FileName}
    (isRenamed : folder.rename source target = some renamed) (has : renamed.Has bytes) :
    folder.Has bytes := by
  obtain ⟨entry, found, rfl⟩ := Option.map_eq_some_iff.mp isRenamed
  rcases Folder.has_of_put has with elsewhere | content
  · exact Folder.has_of_remove elsewhere
  · exact ⟨source, entry, found, content⟩

theorem Folder.has_of_write {written : Bytes} (has : (folder.write name written).Has bytes) :
    folder.Has bytes ∨ bytes = written := by
  unfold Folder.write at has
  split at has
  · exact (Folder.has_of_put has).imp id fun content => (Option.some.inj content).symm
  · exact (Folder.has_of_put has).imp id fun content => (Option.some.inj content).symm

theorem Folder.has_of_dropFile {fails : Bool} (has : (Ask.dropFile folder name fails).Has bytes) :
    folder.Has bytes := by
  unfold Ask.dropFile at has
  split at has
  · exact has
  · exact Folder.has_of_remove has

theorem Folder.has_of_read (read : folder.read name = some bytes) : folder.Has bytes := by
  obtain ⟨entry, found, content⟩ := Option.bind_eq_some_iff.mp read
  exact ⟨name, entry, found, content⟩

/-! ### One step of a call -/

/-- What a call is about to return. -/
def AskStage.outcome : AskStage → Option ConsentOutcome
  | .removingRequest outcome | .removingClaim outcome | .removingAnswer outcome
  | .returned outcome => some outcome
  | _ => none

/-- A call writes what it posts, and settles on an allowance only with a tag that it has checked
over what it posted. -/
structure AskStep (ask : Ask) (codec : Codec) (verify : Bytes → Decision → String → Bool)
    (folder next : Folder) (stage : AskStage) : Prop where
  written : ∀ bytes, next.Has bytes → folder.Has bytes ∨ bytes = ask.bytes
  settled : ∀ decision, stage.outcome = some (.ok decision) →
    ask.stage.outcome = some (.ok decision) ∨
      ∃ bytes answer, folder.Has bytes ∧ codec.decodeAnswer bytes = some answer ∧
        answer.decision = decision ∧ decision.allows ∧ verify ask.bytes decision answer.tag

variable {verify : Bytes → Decision → String → Bool}

variable {status : Status}

theorem settle_ok {ask : Ask} {late : Bool} {decision : Decision}
    (settled : (ask.settle verify late status).outcome = some (.ok decision)) :
    ∃ answer, status = .answered answer ∧ answer.decision = decision ∧ decision.allows ∧
      verify ask.bytes decision answer.tag := by
  cases status with
  | answered answer =>
    rw [Ask.settle] at settled
    split at settled
    · cases settled
    · rename_i allowed
      split at settled
      · rename_i verified
        cases settled
        rw [Bool.not_eq_true', Bool.not_eq_false] at allowed
        exact ⟨answer, rfl, rfl, allowed, verified⟩
      · cases settled
  | posted | claimed =>
    rw [Ask.settle] at settled
    split at settled <;> cases settled
  | gone => cases settled

variable {codec : Codec} {choice : Choice}

theorem report_answered {ask : Ask} {answer : Answer}
    (reported : ask.report codec folder choice = some (.answered answer)) :
    ∃ bytes, folder.Has bytes ∧ codec.readAnswer bytes = answer := by
  unfold Ask.report at reported
  split at reported
  · split at reported
    · cases reported
    · obtain ⟨bytes, read, isAnswer⟩ := Option.map_eq_some_iff.mp reported
      exact ⟨bytes, Folder.has_of_read read, Status.answered.inj isAnswer⟩
  · split at reported <;> cases reported
  · split at reported <;> cases reported
  · cases reported

/-- An answer that allows was read as one. -/
theorem decodeAnswer_of_allows (allows : (codec.readAnswer bytes).decision.allows) :
    codec.decodeAnswer bytes = some (codec.readAnswer bytes) := by
  unfold Codec.readAnswer at allows ⊢
  cases decoded : codec.decodeAnswer bytes with
  | some answer => rfl
  | none =>
    rw [decoded] at allows
    cases allows

theorem AskStep.of_report {ask : Ask} (reported : ask.report codec folder choice = some status) :
    AskStep ask codec verify folder folder (ask.settle verify choice.late status) where
  written := fun bytes has => .inl has
  settled := fun decision settled => by
    obtain ⟨answer, rfl, isDecision, allows, verified⟩ := settle_ok settled
    obtain ⟨bytes, has, rfl⟩ := report_answered reported
    rw [← isDecision] at allows
    exact .inr ⟨bytes, _, has, decodeAnswer_of_allows allows, isDecision, isDecision ▸ allows,
      verified⟩

variable {next : Folder}

theorem AskStep.of_unsettled {ask : Ask} {stage : AskStage}
    (written : ∀ bytes, next.Has bytes → folder.Has bytes ∨ bytes = ask.bytes)
    (unsettled : ∀ decision, stage.outcome = some (.ok decision) →
      ask.stage.outcome = some (.ok decision)) : AskStep ask codec verify folder next stage :=
  ⟨written, fun decision settled => .inl (unsettled decision settled)⟩

theorem askStep_of_advance {ask : Ask} {stage : AskStage}
    (advanced : ask.advance codec verify folder choice = some (next, stage)) :
    AskStep ask codec verify folder next stage := by
  unfold Ask.advance at advanced
  cases here : ask.stage with
  | writing =>
    simp only [here] at advanced
    split at advanced
    · cases advanced
      exact .of_unsettled (fun bytes has => .inl has) nofun
    · cases advanced
      exact .of_unsettled (fun bytes has => Folder.has_of_write has) nofun
  | placing =>
    simp only [here] at advanced
    split at advanced
    · rename_i placed isPlaced _
      cases advanced
      exact .of_unsettled (fun bytes has => .inl (Folder.has_of_rename isPlaced has)) nofun
    · cases advanced
      exact .of_unsettled (fun bytes has => .inl has) nofun
  | removingTemp =>
    rw [here] at advanced
    cases advanced
    exact .of_unsettled (fun bytes has => .inl (Folder.has_of_dropFile has)) nofun
  | lookingForAnswer | lookingForClaim =>
    simp only [here] at advanced
    split at advanced
    · rename_i status reported
      cases advanced
      exact .of_report reported
    · cases advanced
      exact .of_unsettled (fun bytes has => .inl has) nofun
  | lookingForRequest =>
    simp only [here] at advanced
    split at advanced
    · rename_i status reported
      cases advanced
      exact .of_report reported
    · cases advanced
  | waiting =>
    simp only [here] at advanced
    split at advanced
    · cases advanced
      exact .of_unsettled (fun bytes has => .inl has) nofun
    · cases advanced
      exact .of_unsettled (fun bytes has => .inl has) nofun
  | removingRequest outcome | removingClaim outcome | removingAnswer outcome =>
    rw [here] at advanced
    cases advanced
    refine .of_unsettled (fun bytes has => .inl (Folder.has_of_dropFile has)) fun decision ok => ?_
    rw [here]
    exact ok
  | returned outcome =>
    rw [here] at advanced
    cases advanced

/-! ### One step of a task -/

/-- A task writes only the answer it is about, which is its own from the start or says that a
request is unreadable. A claim that comes to something was read as the request it is. -/
structure TaskStep (task : Task) (codec : Codec) (folder next : Folder) (stage : TaskStage)
    (event : Option TaskEvent) : Prop where
  written : ∀ bytes, next.Has bytes → folder.Has bytes ∨
    ∃ answer, task.stage.answer = some answer ∧ bytes = codec.encodeAnswer answer
  answer : ∀ answer, stage.answer = some answer →
    task.stage.answer = some answer ∨ answer = unreadable
  claimed : ∀ claimed, event = some (.claimed claimed) →
    codec.decodeRequest claimed.bytes = some claimed.request

theorem decodeRequest_of_readRequest {id : String} {request : SudoRequest}
    (read : codec.readRequest id bytes = some request) :
    codec.decodeRequest bytes = some request ∧ request.id = id := by
  obtain ⟨decoded, sameId⟩ := Option.filter_eq_some_iff.mp read
  exact ⟨decoded, of_decide_eq_true sameId⟩

variable {stage : TaskStage} {task : Task} {event : Option TaskEvent}

theorem TaskStep.of_quiet (written : ∀ bytes, next.Has bytes → folder.Has bytes)
    (answer : ∀ answer, stage.answer = some answer →
      task.stage.answer = some answer ∨ answer = unreadable)
    (unclaimed : ∀ claimed, event ≠ some (.claimed claimed)) :
    TaskStep task codec folder next stage event :=
  ⟨fun bytes has => .inl (written bytes has), answer, fun claimed isClaimed =>
    absurd isClaimed (unclaimed claimed)⟩

theorem taskStep_of_advance
    (advanced : task.advance codec folder choice = some (next, stage, event)) :
    TaskStep task codec folder next stage event := by
  cases Task.steps_of_advance advanced with
  | stays live answer => exact .of_quiet (fun bytes has => has) answer nofun
  | takes scanning here renamed =>
    refine .of_quiet (fun bytes has => Folder.has_of_rename renamed has)
      (fun answer isAnswer => ?_) nofun
    split at isAnswer
    · exact .inr (Option.some.inj isAnswer).symm
    · cases isAnswer
  | claims here read =>
    refine ⟨fun bytes has => .inl has, nofun, fun claimed isClaimed => ?_⟩
    cases isClaimed
    exact (decodeRequest_of_readRequest read).1
  | putsBack here renamed =>
    exact .of_quiet (fun bytes has => Folder.has_of_rename renamed has) nofun nofun
  | removes ext here => exact .of_quiet (fun bytes has => Folder.has_of_dropFile has) nofun nofun
  | finds event unclaimed =>
    exact .of_quiet (fun bytes has => has) nofun fun claimed same =>
      unclaimed claimed (Option.some.inj same)
  | writes answer refusing here =>
    refine ⟨fun bytes has => ?_, fun other isAnswer => .inl (here ▸ isAnswer), nofun⟩
    exact (Folder.has_of_write has).imp id fun written => ⟨answer, by rw [here]; rfl, written⟩
  | places answer refusing here renamed =>
    exact .of_quiet (fun bytes has => Folder.has_of_rename renamed has) nofun nofun
  | dropsTemp refusing here =>
    refine .of_quiet (fun bytes has => Folder.has_of_dropFile has) (fun answer isAnswer => ?_) nofun
    split at isAnswer <;> cases isAnswer

/-! ### What every run keeps -/

section

variable {setting : Setting Key} {vault : Nat}

variable {produced : List Production} {answer : Answer}

theorem Answer.Unforged.mono {later : List Production}
    (unforged : answer.Unforged setting vault produced) (kept : ∀ one ∈ produced, one ∈ later) :
    answer.Unforged setting vault later := by
  intro request decision tagged
  obtain ⟨one, member, same⟩ := unforged request decision tagged
  exact ⟨one, kept one member, same⟩

theorem Unforged.mono {later : List Production} {bytes : Bytes}
    (unforged : Unforged setting vault produced bytes) (kept : ∀ one ∈ produced, one ∈ later) :
    Unforged setting vault later bytes :=
  fun answer decoded => (unforged answer decoded).mono kept

/-- An answer without a tag carries none of the vault's. -/
theorem unforged_of_untagged (untagged : answer.tag = "") :
    answer.Unforged setting vault produced := by
  intro request decision tagged
  rw [untagged] at tagged
  exact absurd (Option.some.inj tagged).symm (setting.mac.nonempty _ _)

structure GuardedCall (setting : Setting Key) (vault : Nat) (world : World) (call : Call) :
    Prop where
  began : call.before ≤ world.produced.length
  bytes : setting.codec.decodeRequest call.ask.bytes = some call.ask.request
  notAnswer : setting.codec.decodeAnswer call.ask.bytes = none
  fresh : ∀ one ∈ world.produced.take call.before, one.shown.id ≠ call.ask.request.id
  granted : call.ask.request.vaultId = vault → ∀ decision,
    call.ask.stage.outcome = some (.ok decision) → decision.allows ∧ call.Granted world decision

structure Guarded (setting : Setting Key) (vault : Nat) (world : World) : Prop where
  read : ∀ bytes, world.folder.Has bytes → Unforged setting vault world.produced bytes
  answers : ∀ task ∈ world.tasks, ∀ answer, task.stage.answer = some answer →
    answer.Unforged setting vault world.produced
  cards : ∀ card ∈ world.cards, card ∈ world.claims
  claims : ∀ claim ∈ world.claims,
    setting.codec.decodeRequest claim.2.bytes = some claim.2.request
  produced : ∀ one ∈ world.produced, (one.process, ⟨one.shown, one.bytes⟩) ∈ world.claims ∧
    one.vaultId = one.shown.vaultId ∧ one.vaultId ∈ one.unlocked
  calls : ∀ call ∈ world.calls, GuardedCall setting vault world call

/-- What has been claimed and tagged by then is kept. -/
structure Later (world next : World) : Prop where
  claims : ∀ claim ∈ world.claims, claim ∈ next.claims
  produced : ∃ more, next.produced = world.produced ++ more

theorem Later.refl (world : World) : Later world world :=
  ⟨fun _ member => member, [], (append_nil _).symm⟩

theorem GuardedCall.later {world next : World} {call : Call}
    (guarded : GuardedCall setting vault world call) (later : Later world next) :
    GuardedCall setting vault next call := by
  obtain ⟨more, appended⟩ := later.produced
  refine ⟨?_, guarded.bytes, guarded.notAnswer, ?_, fun ofVault decision ok => ?_⟩
  · rw [appended, length_append]
    exact Nat.le_add_right_of_le guarded.began
  · rw [appended, take_append_of_le_length guarded.began]
    exact guarded.fresh
  · obtain ⟨allows, one, member, sameDecision, sameBytes, shown, claimed, rest⟩ :=
      guarded.granted ofVault decision ok
    refine ⟨allows, one, ?_, sameDecision, sameBytes, shown, later.claims _ claimed, rest⟩
    rw [appended, drop_append_of_le_length guarded.began]
    exact mem_append_left _ member

variable {world : World}

variable {decision : Decision}

/-- An allowance whose tag a call has checked over what it posted was granted. -/
theorem GuardedCall.granted_of_verify {call : Call} {key : Option Key}
    (guarded : Guarded setting vault world) (one : GuardedCall setting vault world call)
    (isKey : ∀ unlocked, key = some unlocked → unlocked = setting.masterKey vault)
    (unforged : answer.Unforged setting vault world.produced)
    (verified : setting.mac.verifyMcpConsentTag key call.ask.bytes decision answer.tag) :
    call.Granted world decision := by
  obtain ⟨unlocked, isUnlocked, tagged⟩ := Mac.unhex_of_verify verified
  rw [isKey unlocked isUnlocked] at tagged
  obtain ⟨production, member, same⟩ := unforged _ _ tagged
  obtain ⟨-, sameBytes, sameDecision⟩ := setting.mac.consentMac_injective same
  obtain ⟨claimed, itsVault, unlockedThen⟩ := guarded.produced production member
  have shown : production.shown = call.ask.request := by
    have decoded := guarded.claims _ claimed
    dsimp only at decoded
    rw [sameBytes, one.bytes] at decoded
    exact (Option.some.inj decoded).symm
  refine ⟨production, ?_, sameDecision, sameBytes, shown, claimed, ?_, unlockedThen⟩
  · rw [← take_append_drop call.before world.produced] at member
    rcases mem_append.mp member with earlier | since
    · exact absurd (congrArg SudoRequest.id shown) (one.fresh production earlier)
    · exact since
  · rw [itsVault, shown]

variable {next : World} {index : Nat}

theorem Guarded.advanceCall (guarded : Guarded setting vault world) {choice : Choice}
    (advanced : world.advanceCall setting index choice = some next) :
    Guarded setting vault next := by
  unfold World.advanceCall at advanced
  obtain ⟨call, found, rest⟩ := Option.bind_eq_some_iff.mp advanced
  obtain ⟨⟨folder, stage⟩, stepped, isNext⟩ := Option.bind_eq_some_iff.mp rest
  cases isNext
  have step := askStep_of_advance stepped
  have member := mem_of_getElem? found
  have one := guarded.calls call member
  have later : Later world { world with
      folder := folder
      calls := world.calls.set index { call with ask := { call.ask with stage := stage } } } :=
    ⟨fun _ member => member, [], (append_nil _).symm⟩
  refine ⟨fun bytes has => ?_, guarded.answers, guarded.cards, guarded.claims, guarded.produced,
    fun other isOther => ?_⟩
  · rcases step.written bytes has with old | rfl
    · exact guarded.read bytes old
    · intro answer decoded
      rw [one.notAnswer] at decoded
      cases decoded
  · rcases mem_or_eq_of_mem_set isOther with old | rfl
    · exact (guarded.calls other old).later later
    · refine ⟨one.began, one.bytes, one.notAnswer, one.fresh, fun ofVault decision ok => ?_⟩
      rcases step.settled decision ok with before | ⟨bytes, answer, has, decoded, -, allows, verified⟩
      · obtain ⟨allows, granted⟩ := one.granted ofVault decision before
        exact ⟨allows, granted⟩
      · have granted : call.Granted world decision := by
          refine one.granted_of_verify guarded (fun unlocked isKey => ?_)
            (guarded.read bytes has answer decoded) verified
          split at isKey
          · cases isKey
          · rw [← ofVault]
            exact (Option.some.inj isKey).symm
        exact ⟨allows, granted⟩

theorem later_observe (world : World) (process : Nat) (event : Option TaskEvent) :
    Later world (world.observe process event) := by
  unfold World.observe
  split
  · exact ⟨fun _ member => mem_append_left _ member, [], (append_nil _).symm⟩
  · exact Later.refl world

/-- The app takes note of a claim that was read as the request it is. -/
theorem Guarded.observe (guarded : Guarded setting vault world) (process : Nat)
    {event : Option TaskEvent} (decoded : ∀ claimed, event = some (.claimed claimed) →
      setting.codec.decodeRequest claimed.bytes = some claimed.request) :
    Guarded setting vault (world.observe process event) := by
  have later := later_observe world process event
  unfold World.observe at later ⊢
  split
  · rename_i claimed
    refine ⟨guarded.read, guarded.answers, fun card member => ?_, fun claim member => ?_,
      fun one member => ?_, fun call member => (guarded.calls call member).later later⟩
    · have held : card ∈ world.cards ∨ card = (process, claimed) := by
        unfold World.hold at member
        dsimp only at member
        split at member
        · exact .inl member
        · rcases mem_append.mp member with old | new
          · exact .inl old
          · exact .inr (mem_singleton.mp new)
      rcases held with old | rfl
      · exact mem_append_left _ (guarded.cards card old)
      · exact mem_append_right _ (mem_singleton.mpr rfl)
    · rcases mem_append.mp member with old | new
      · exact guarded.claims claim old
      · rw [mem_singleton.mp new]
        exact decoded claimed rfl
    · obtain ⟨claimed, rest⟩ := guarded.produced one member
      exact ⟨mem_append_left _ claimed, rest⟩
  · exact guarded

theorem Guarded.advanceTask (guarded : Guarded setting vault world)
    (written : ∀ answer, setting.codec.decodeAnswer (setting.codec.encodeAnswer answer) = some answer)
    {choice : Choice} (advanced : world.advanceTask setting index choice = some next) :
    Guarded setting vault next := by
  unfold World.advanceTask at advanced
  obtain ⟨task, found, rest⟩ := Option.bind_eq_some_iff.mp advanced
  obtain ⟨⟨folder, stage, event⟩, stepped, isNext⟩ := Option.bind_eq_some_iff.mp rest
  cases isNext
  have step := taskStep_of_advance stepped
  have member := mem_of_getElem? found
  have moved : Guarded setting vault { world with
      folder := folder
      tasks := world.tasks.set index { task with stage := stage } } := by
    refine ⟨fun bytes has => ?_, fun other isOther answer isAnswer => ?_, guarded.cards,
      guarded.claims, guarded.produced, fun call isCall => ?_⟩
    · rcases step.written bytes has with old | ⟨answer, isAnswer, rfl⟩
      · exact guarded.read bytes old
      · intro other decoded
        rw [written answer] at decoded
        cases decoded
        exact guarded.answers task member answer isAnswer
    · rcases mem_or_eq_of_mem_set isOther with old | rfl
      · exact guarded.answers other old answer isAnswer
      · rcases step.answer answer isAnswer with before | rfl
        · exact guarded.answers task member answer before
        · exact unforged_of_untagged rfl
    · have one := guarded.calls call isCall
      exact one.later ⟨fun _ member => member, [], (append_nil _).symm⟩
  exact moved.observe task.process step.claimed

variable (setting) in
/-- The answer to a card carries a tag only where one is produced for it, with its vault
unlocked. -/
theorem mcpSudoAnswer_spec (world : World) (process : Nat) (card : Claimed) (decision : Decision)
    (reason : Option DenyReason) :
    (∃ one, world.mcpSudoAnswer setting process card decision reason =
        (⟨decision, none, hex (setting.mac.consentMac (setting.masterKey one.vaultId) one.bytes
          one.decision)⟩, some one) ∧
      one.process = process ∧ one.bytes = card.bytes ∧ one.shown = card.request ∧
      one.vaultId = card.request.vaultId ∧ one.vaultId ∈ one.unlocked) ∨
    ∃ answer, answer.tag = "" ∧
      world.mcpSudoAnswer setting process card decision reason = (answer, none) := by
  unfold World.mcpSudoAnswer
  dsimp only
  split
  · exact .inr ⟨_, rfl, rfl⟩
  · split
    · rename_i unlocked
      exact .inl ⟨⟨process, world.unlocked process, card.request.vaultId, decision, card.bytes,
        card.request⟩, rfl, rfl, rfl, rfl, rfl, unlocked⟩
    · exact .inr ⟨_, rfl, rfl⟩

theorem Guarded.answerCard (guarded : Guarded setting vault world) {reason : Option DenyReason}
    (answered : world.answerCard setting index decision reason = some next) :
    Guarded setting vault next := by
  unfold World.answerCard at answered
  obtain ⟨⟨process, card⟩, found, rfl⟩ := Option.map_eq_some_iff.mp answered
  have claimed := guarded.cards _ (mem_of_getElem? found)
  dsimp only
  have later : ∀ more : List Production, Later world { world with
      cards := world.cards.eraseIdx index
      tasks := world.tasks ++ [⟨process, card.request.id, .checking
        (world.mcpSudoAnswer setting process card decision reason).1 false⟩]
      produced := world.produced ++ more } :=
    fun more => ⟨fun _ member => member, more, rfl⟩
  have cards : ∀ one ∈ world.cards.eraseIdx index, one ∈ world.claims :=
    fun one member => guarded.cards one (mem_of_mem_eraseIdx member)
  have kept : ∀ more : List Production, ∀ one ∈ world.produced, one ∈ world.produced ++ more :=
    fun more one member => mem_append_left _ member
  refine ⟨fun bytes has => (guarded.read bytes has).mono (kept _), ?_, cards, guarded.claims, ?_,
    fun call member => (guarded.calls call member).later (later _)⟩
  · intro task member answer isAnswer
    rcases mem_append.mp member with old | new
    · exact (guarded.answers task old answer isAnswer).mono (kept _)
    · rw [mem_singleton.mp new] at isAnswer
      cases isAnswer
      rcases mcpSudoAnswer_spec setting world process card decision reason with
        ⟨one, isOne, -⟩ | ⟨answer, untagged, isAnswer⟩
      · rw [isOne]
        intro request other tagged
        rw [unhex_hex] at tagged
        exact ⟨one, mem_append_right _ (mem_singleton.mpr rfl), Option.some.inj tagged⟩
      · rw [isAnswer]
        exact unforged_of_untagged untagged
  · intro one member
    rcases mem_append.mp member with old | new
    · exact guarded.produced one old
    · rcases mcpSudoAnswer_spec setting world process card decision reason with
        ⟨other, isOther, sameProcess, bytes, shown, itsVault, unlocked⟩ | ⟨answer, -, isAnswer⟩
      · rw [isOther] at new
        obtain rfl := mem_singleton.mp new
        refine ⟨?_, itsVault.trans (congrArg SudoRequest.vaultId shown).symm, unlocked⟩
        rw [sameProcess, bytes, shown]
        exact claimed
      · rw [isAnswer] at new
        cases new

/-- Where nothing is read, claimed or tagged anew, only the tasks and calls are to be looked at. -/
theorem Guarded.start (guarded : Guarded setting vault world) {task : Task}
    (silent : task.stage.answer = none) (started : world.start task = some next) :
    Guarded setting vault next := by
  unfold World.start at started
  split at started
  · cases started
    refine ⟨guarded.read, fun other member answer isAnswer => ?_, guarded.cards, guarded.claims,
      guarded.produced, fun call member => ?_⟩
    · rcases mem_append.mp member with old | new
      · exact guarded.answers other old answer isAnswer
      · rw [mem_singleton.mp new, silent] at isAnswer
        cases isAnswer
    · have one := guarded.calls call member
      exact one.later ⟨fun _ member => member, [], (append_nil _).symm⟩
  · cases started

theorem Guarded.ask (guarded : Guarded setting vault world) (process : Nat) {request : SudoRequest}
    (assumed : Assumed setting vault world (.ask process request)) :
    Guarded setting vault { world with
      calls := world.calls ++ [⟨.start setting.codec process request, world.produced.length⟩] } := by
  obtain ⟨decodes, notAnswer, fresh⟩ := assumed
  refine ⟨guarded.read, guarded.answers, guarded.cards, guarded.claims, guarded.produced,
    fun call member => ?_⟩
  rcases mem_append.mp member with old | new
  · have one := guarded.calls call old
    exact one.later ⟨fun _ member => member, [], (append_nil _).symm⟩
  · rw [mem_singleton.mp new]
    refine ⟨Nat.le_refl _, decodes, notAnswer, ?_, fun _ decision ok => ?_⟩
    · rw [take_length]
      exact fresh
    · unfold Ask.start at ok
      dsimp only at ok
      split at ok <;> cases ok

theorem Guarded.step (guarded : Guarded setting vault world)
    (written : ∀ answer, setting.codec.decodeAnswer (setting.codec.encodeAnswer answer) = some answer)
    {action : WorldAction} (assumed : Assumed setting vault world action)
    (stepped : setting.machine.step world action = some next) : Guarded setting vault next := by
  have unchanged : ∀ call ∈ world.calls, ∀ next : World, next.claims = world.claims →
      next.produced = world.produced → GuardedCall setting vault next call := by
    intro call member next claims produced
    refine (guarded.calls call member).later ⟨?_, [], ?_⟩
    · rw [claims]
      exact fun _ member => member
    · rw [produced, append_nil]
  cases action with
  | ask process request =>
    cases stepped
    exact guarded.ask process assumed
  | advanceCall index choice => exact guarded.advanceCall stepped
  | claim process id => exact guarded.start rfl stepped
  | scan process id ext => exact guarded.start rfl stepped
  | advanceTask index choice => exact guarded.advanceTask written stepped
  | answer index decision reason => exact guarded.answerCard stepped
  | drop index =>
    cases stepped
    exact ⟨guarded.read, guarded.answers,
      fun card member => guarded.cards card (mem_of_mem_eraseIdx member), guarded.claims,
      guarded.produced, fun call member => unchanged call member _ rfl rfl⟩
  | setUnlocked process vaults =>
    cases stepped
    exact ⟨guarded.read, guarded.answers, guarded.cards, guarded.claims, guarded.produced,
      fun call member => unchanged call member _ rfl rfl⟩
  | adversary folder =>
    cases stepped
    exact ⟨assumed, guarded.answers, guarded.cards, guarded.claims, guarded.produced,
      fun call member => unchanged call member _ rfl rfl⟩

theorem guarded_empty : Guarded setting vault .empty where
  read := fun _ has => by
    obtain ⟨_, _, found, _⟩ := has
    cases found
  answers := forall_mem_nil _
  cards := forall_mem_nil _
  claims := forall_mem_nil _
  produced := forall_mem_nil _
  calls := forall_mem_nil _

/-- Whatever the adversary does to the folder, a call for the vault returns an allowance only where
an app that holds the vault unlocked has tagged this decision, since the call began, over the bytes
it posted and the request these show. -/
theorem grantedOnly_of_run {actions : List WorldAction} {final : World}
    (written : ∀ answer, setting.codec.decodeAnswer (setting.codec.encodeAnswer answer) = some answer)
    (assumed : setting.machine.Along (Assumed setting vault) .empty actions)
    (ran : setting.machine.run .empty actions = some final) : GrantedOnly vault final := by
  have guarded : Guarded setting vault final := Machine.invariant
    (fun _ _ _ guarded assumed stepped => guarded.step written assumed stepped)
    guarded_empty assumed ran
  intro call member ofVault decision returned
  exact (guarded.calls call member).granted ofVault decision (by rw [returned]; rfl)

end

/-! ### A run -/

/-- A code that no two keys or messages share a tag of, and that is short for one message. -/
def sampleMac : Mac UInt8 where
  tag key message :=
    if message = consentContext ++ tagMessage sampleBytes .once then [1, key] else 0 :: key :: message
  nonempty key message := by
    split <;> exact cons_ne_nil _ _
  injective same := by
    split at same
    · rename_i isSample
      split at same
      · rename_i otherIsSample
        cases same
        exact ⟨rfl, isSample.trans otherIsSample.symm⟩
      · cases same
    · split at same
      · cases same
      · cases same
        exact ⟨rfl, rfl⟩

def sampleTag : String := sampleMac.mcpConsentTag 7 sampleBytes .once

def sampleAnswerBytes : Bytes :=
  utf8 ("\x7b\"decision\":\"once\",\"reason\":null,\"tag\":\"" ++ sampleTag ++ "\"\x7d")

def sampleSetting : Setting UInt8 where
  codec := sampleCodec ⟨.once, none, sampleTag⟩ sampleAnswerBytes
  mac := sampleMac
  masterKey := UInt8.ofNat

/-- The adversary leaves the request where it is and puts something of its own beside it. -/
def beside : Folder := fun name =>
  if name = ⟨sampleRequest.id, .request⟩ then some (.file sampleBytes)
  else if name = ⟨sampleRequest.id, .tmp 2⟩ then some (.file (utf8 "me"))
  else none

def allowed : List WorldAction :=
  [.advanceCall 0 .plain, .advanceCall 0 .plain, .adversary beside, .claim 2 sampleRequest.id,
    .advanceTask 0 .plain, .advanceTask 0 .plain, .advanceTask 0 .plain, .setUnlocked 2 [7],
    .answer 0 .once none, .advanceTask 1 .plain, .advanceTask 1 .plain, .advanceTask 1 .plain,
    .advanceCall 0 .plain, .advanceCall 0 .plain, .advanceCall 0 .plain, .advanceCall 0 .plain]

theorem beside_unforged {produced : List Production} (has : beside.Has bytes) :
    Unforged sampleSetting 7 produced bytes := by
  have notAnswers : ∀ bytes ∈ [sampleBytes, utf8 "me"],
      sampleSetting.codec.decodeAnswer bytes = none := by
    decide +kernel
  obtain ⟨name, entry, found, content⟩ := has
  have listed : bytes ∈ [sampleBytes, utf8 "me"] := by
    unfold beside at found
    split at found
    · cases found
      cases content
      exact mem_cons_self
    · split at found
      · cases found
        cases content
        exact mem_cons_of_mem _ mem_cons_self
      · cases found
  intro answer decoded
  rw [notAnswers bytes listed] at decoded
  cases decoded

theorem assumed_allowed :
    sampleSetting.machine.Along (Assumed sampleSetting 7) .empty (.ask 1 sampleRequest :: allowed) := by
  have request : sampleSetting.codec.decodeRequest
        (sampleSetting.codec.encodeRequest sampleRequest) = some sampleRequest ∧
      sampleSetting.codec.decodeAnswer (sampleSetting.codec.encodeRequest sampleRequest) = none := by
    decide +kernel
  have rest : ∀ action ∈ allowed, ∀ world, Assumed sampleSetting 7 world action := by
    intro action member world
    simp only [allowed, mem_cons, not_mem_nil, or_false] at member
    rcases member with rfl | rfl | rfl | rfl | rfl | rfl | rfl | rfl | rfl | rfl | rfl | rfl | rfl |
      rfl | rfl | rfl
    case inr.inr.inl => exact fun bytes has => beside_unforged has
    all_goals trivial
  refine ⟨⟨request.1, request.2, forall_mem_nil _⟩, fun next _ => ?_⟩
  exact (Machine.along_congr (fun state action allowed => iff_of_true (allowed state) trivial)
    rest).mpr (Machine.along_true _ next allowed)

theorem grantedOnly_allowed : ∃ final,
    sampleSetting.machine.run .empty (.ask 1 sampleRequest :: allowed) = some final ∧
      GrantedOnly 7 final ∧ ∃ call ∈ final.calls, call.ask.request.vaultId = 7 ∧
        call.ask.stage = .returned (.ok .once) := by
  have returned : (sampleSetting.machine.run .empty (.ask 1 sampleRequest :: allowed)).any
      (fun final => final.calls.any fun call => call.ask.request.vaultId = 7 ∧
        call.ask.stage = .returned (.ok .once)) = true := by
    decide +kernel
  obtain ⟨final, ran, someCall⟩ := (Option.any_eq_true _ _).mp returned
  obtain ⟨call, member, isReturned⟩ := any_eq_true.mp someCall
  have written : ∀ answer, sampleSetting.codec.decodeAnswer
      (sampleSetting.codec.encodeAnswer answer) = some answer :=
    sampleCodec_answer fun rest marked => by
      have unmarked : sampleAnswerBytes.head? ≠ some 0 := by
        decide +kernel
      exact unmarked (congrArg List.head? marked)
  exact ⟨final, ran, grantedOnly_of_run written assumed_allowed ran, call, member,
    of_decide_eq_true isReturned⟩

end Oryxis.Consent

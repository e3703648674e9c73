/-
This file is one request in the folder: the call that posts it and any number of app
tasks, with no other writer.

What is kept beside the state is what the runs are judged by: what each poll reported,
and the answer an app was through with when the poll began; and the claims and the
offers of a scan that came to something, with whether they were begun after the call
had returned.
-/

import Oryxis.Consent.Steps
import Oryxis.Library.Machine

namespace Oryxis.Consent

open Library

/-! ### The machine -/

/-- A task, and whether it was begun after the call had returned. -/
structure Running where
  late : Bool
  task : Task

structure Exchange where
  folder : Folder
  ask : Ask
  tasks : List Running
  cards : List (Nat × Claimed)
  answered : Option Answer
  since : Option Answer
  reports : List (Option Answer × Status)
  claims : List Bool
  offers : List Bool

inductive ExchangeAction
  | call (choice : Choice)
  | claim (process : Nat)
  | scan (process : Nat) (ext : Ext)
  | task (index : Nat) (choice : Choice)
  | answer (index : Nat) (answer : Answer)
  | drop (index : Nat)

/-- The call is through. -/
def AskStage.isReturned : AskStage → Bool
  | .returned _ => true
  | _ => false

namespace Exchange

def file (exchange : Exchange) (ext : Ext) : FileName := exchange.ask.file ext

def begin (exchange : Exchange) (process : Nat) (stage : TaskStage) : Exchange :=
  { exchange with tasks := exchange.tasks ++
    [⟨exchange.ask.stage.isReturned, ⟨process, exchange.ask.request.id, stage⟩⟩] }

def observe (exchange : Exchange) (running : Running) : Option TaskEvent → Exchange
  | none => exchange
  | some (.claimed claimed) => { exchange with
      cards :=
        if exchange.cards.any fun card =>
            card.1 = running.task.process && card.2.request.id = claimed.request.id then
          exchange.cards
        else exchange.cards ++ [(running.task.process, claimed)]
      claims := exchange.claims ++ [running.late] }
  | some (.offered _) => { exchange with offers := exchange.offers ++ [running.late] }
  | some (.answered answer) => { exchange with answered := some answer }

/-- A poll begins with the look for an answer. -/
def advanceCall (exchange : Exchange) (codec : Codec)
    (verify : Bytes → Decision → String → Bool) (choice : Choice) : Option Exchange :=
  (exchange.ask.advance codec verify exchange.folder choice).map fun (folder, stage) =>
    let since :=
      if exchange.ask.stage = .lookingForAnswer then exchange.answered else exchange.since
    { exchange with
      folder := folder
      ask := { exchange.ask with stage := stage }
      since := since
      reports := exchange.reports ++
        ((exchange.ask.report codec exchange.folder choice).map (since, ·)).toList }

def advanceTask (exchange : Exchange) (codec : Codec) (index : Nat) (choice : Choice) :
    Option Exchange := do
  let running ← exchange.tasks[index]?
  let (folder, stage, event) ← running.task.advance codec exchange.folder choice
  return { exchange with
    folder := folder
    tasks := exchange.tasks.set index { running with task := { running.task with stage := stage } }
    }.observe running event

def answerCard (exchange : Exchange) (index : Nat) (answer : Answer) : Option Exchange :=
  (exchange.cards[index]?).map fun (process, _) =>
    { exchange with cards := exchange.cards.eraseIdx index }.begin process (.checking answer false)

end Exchange

def exchanging (codec : Codec) (verify : Bytes → Decision → String → Bool) :
    Machine Exchange ExchangeAction where
  step exchange
    | .call choice => exchange.advanceCall codec verify choice
    | .claim process => some (exchange.begin process .lookingAtRequest)
    | .scan process ext => some (exchange.begin process (.scanning ext))
    | .task index choice => exchange.advanceTask codec index choice
    | .answer index answer => exchange.answerCard index answer
    | .drop index => some { exchange with cards := exchange.cards.eraseIdx index }

/-- A call begins on an empty folder. -/
def Exchange.start (codec : Codec) (process : Nat) (request : SudoRequest) : Exchange where
  folder := fun _ => none
  ask := .start codec process request
  tasks := []
  cards := []
  answered := none
  since := none
  reports := []
  claims := []
  offers := []

/-! ### What a run is assumed to be -/

/-- A task may fail to read a request. -/
def TaskStage.reads : TaskStage → Bool
  | .lookingAtRequest | .reading | .scanReading => true
  | _ => false

/-- No operation fails on a file that is there, but the reads of a request. -/
def Reliable (exchange : Exchange) : ExchangeAction → Prop
  | .call choice => choice.fails = false
  | .task index choice => ∀ running ∈ exchange.tasks[index]?,
      choice.fails = true → running.task.stage.reads
  | _ => True

/-- No clock is past a window. -/
def InTime : ExchangeAction → Prop
  | .call choice => choice.late = false
  | .task _ choice => choice.stale = false ∧ choice.expired = false
  | _ => True

instance (exchange : Exchange) : ∀ action, Decidable (Reliable exchange action)
  | .call choice => inferInstanceAs (Decidable (choice.fails = false))
  | .task index choice => inferInstanceAs (Decidable (∀ running ∈ exchange.tasks[index]?,
      choice.fails = true → running.task.stage.reads))
  | .claim _ | .scan _ _ | .answer _ _ | .drop _ => isTrue trivial

instance : ∀ action, Decidable (InTime action)
  | .call choice => inferInstanceAs (Decidable (choice.late = false))
  | .task _ choice => inferInstanceAs (Decidable (choice.stale = false ∧ choice.expired = false))
  | .claim _ | .scan _ _ | .answer _ _ | .drop _ => isTrue trivial

/-! ### The folder after an operation -/

namespace Folder

theorem remove_self (folder : Folder) (name : FileName) : folder.remove name name = none :=
  Function.update_self ..

variable {folder : Folder} {name other : FileName}

theorem remove_of_ne (ne : other ≠ name) :
    folder.remove name other = folder other :=
  Function.update_of_ne ne ..

theorem put_self (folder : Folder) (name : FileName) (entry : Entry) :
    folder.put name entry name = some entry :=
  Function.update_self ..

theorem put_of_ne (entry : Entry) (ne : other ≠ name) :
    folder.put name entry other = folder other :=
  Function.update_of_ne ne ..

theorem rename_eq_some {source : FileName} {entry : Entry} (isThere : folder source = some entry)
    (target : FileName) :
    folder.rename source target = some ((folder.remove source).put target entry) := by
  rw [rename, isThere]
  rfl

/-- A rename moves what is there and leaves the rest. -/
theorem rename_spec {renamed : Folder} {source target : FileName}
    (isRenamed : folder.rename source target = some renamed) (ne : source ≠ target) :
    renamed target = folder source ∧ renamed source = none ∧
      (folder source).isSome ∧ ∀ other, other ≠ source → other ≠ target →
        renamed other = folder other := by
  obtain ⟨entry, found, rfl⟩ := Option.map_eq_some_iff.mp isRenamed
  refine ⟨?_, ?_, ?_, fun other notSource notTarget => ?_⟩
  · rw [put_self, found]
  · rw [put_of_ne _ ne, remove_self]
  · rw [found]
    rfl
  · rw [put_of_ne _ notTarget, remove_of_ne notSource]

theorem write_eq_put (folder : Folder) (name : FileName) (bytes : Bytes) :
    ∃ entry, folder.write name bytes = folder.put name entry := by
  unfold write
  split
  · exact ⟨_, rfl⟩
  · exact ⟨_, rfl⟩

theorem write_of_ne (bytes : Bytes) (ne : other ≠ name) :
    folder.write name bytes other = folder other := by
  obtain ⟨entry, isPut⟩ := folder.write_eq_put name bytes
  rw [isPut, put_of_ne _ ne]

theorem write_self (bytes : Bytes) (plain : ∀ entry, folder name = some entry → entry.plain) :
    folder.write name bytes name = some (.file bytes) := by
  have isPut : folder.write name bytes = folder.put name (.file bytes) := by
    unfold write
    split
    · rename_i other
      exact absurd (plain _ other) Bool.false_ne_true
    · rfl
  rw [isPut, put_self]

theorem dropFile_of_ne (fails : Bool) (ne : other ≠ name) :
    Ask.dropFile folder name fails other = folder other := by
  unfold Ask.dropFile
  split
  · rfl
  · exact remove_of_ne ne

theorem dropFile_of_none (missing : folder other = none) (name : FileName) (fails : Bool) :
    Ask.dropFile folder name fails other = none := by
  by_cases same : other = name
  · subst same
    unfold Ask.dropFile
    split
    · exact missing
    · exact remove_self ..
  · exact (dropFile_of_ne fails same).trans missing

theorem isThere_of_same {other : Folder} (same : other name = folder name) :
    other.isThere name = folder.isThere name :=
  congrArg (Option.any Entry.there) same

end Folder

/-! ### What the runs below use -/

def refusal : Answer := ⟨.deny, some .person, ""⟩

def refusalBytes : Bytes :=
  utf8 "\x7b\"decision\":\"deny\",\"reason\":\"person\",\"tag\":\"\"\x7d"

def refusalCodec : Codec := sampleCodec refusal refusalBytes

theorem refusalCodec_answer (answer : Answer) :
    refusalCodec.decodeAnswer (refusalCodec.encodeAnswer answer) = some answer := by
  refine sampleCodec_answer (fun rest marked => ?_) answer
  have unmarked : refusalBytes.head? ≠ some 0 := by
    decide +kernel
  exact unmarked (congrArg List.head? marked)

/-- No tag verifies. -/
def refuseAll : Bytes → Decision → String → Bool := fun _ _ _ => false

end Oryxis.Consent

/-
This file is the stream of events that the providers of the assistant answer with, and when how it
is cut does not show.

The reader decodes every chunk by itself and looks for two line feeds in a row; what stands in front
of them is an event, and its data lines are the payload the handler gets. The events of the stream
are closed by empty lines, whichever line ends there are. The two agree on an event exactly where
the text in front of the two line feeds holds at most the data of one event, which does not begin
with an empty line and does not keep a carriage return. A text that is not like that already shows
in the first payload the handler gets or misses, so the reader does what the stream says exactly
when every text up to the one the handler stops at is like that, and every chunk up to there is a
text.
-/

import Oryxis.Library.Records
import Oryxis.Library.Text
import Oryxis.Library.Utf8

namespace Oryxis.Events

open Library List

abbrev Text := List Char

/-! ### The reader -/

/-- What a handler says to a payload, by the payloads it had before: whether it is done. -/
abbrev Handler (Failure : Type) := List Text → Text → Except Failure Bool

inductive StreamError (Failure : Type) where
  | read (why : String)
  | utf8
  | handler (failure : Failure)
  deriving DecidableEq, Repr

/-- What stands in front of the first two line feeds in a row, and behind them. -/
def splitBoundary : Text → Option (Text × Text)
  | [] => none
  | [_] => none
  | first :: second :: rest =>
    if first = '\n' ∧ second = '\n' then some ([], rest)
    else (splitBoundary (second :: rest)).map fun parts => (first :: parts.1, parts.2)

variable {text event : Text}

theorem eq_of_splitBoundary {rest : Text} (split : splitBoundary text = some (event, rest)) :
    text = event ++ '\n' :: '\n' :: rest ∧ event.getLast? ≠ some '\n' ∧
      ∀ more, splitBoundary (text ++ more) = some (event, rest ++ more) := by
  induction text using splitBoundary.induct generalizing event with
  | case1 => cases split
  | case2 => cases split
  | case3 first second behind both =>
    obtain ⟨rfl, rfl⟩ := both
    rw [splitBoundary, if_pos ⟨rfl, rfl⟩] at split
    cases split
    refine ⟨rfl, Option.some_ne_none _ ∘ Eq.symm, fun more => ?_⟩
    rw [cons_append, cons_append, splitBoundary, if_pos ⟨rfl, rfl⟩]
  | case4 first second behind different inductionHypothesis =>
    rw [splitBoundary, if_neg different] at split
    obtain ⟨⟨inner, after⟩, isSplit, same⟩ := Option.map_eq_some_iff.mp split
    cases same
    obtain ⟨whole, last, stable⟩ := inductionHypothesis isSplit
    refine ⟨congrArg (first :: ·) whole, ?_, fun more => ?_⟩
    · cases inner with
      | nil =>
        intro feed
        obtain rfl : first = '\n' := Option.some.inj feed
        exact different ⟨rfl, (cons.inj whole).1⟩
      | cons head inner => rwa [getLast?_cons_cons]
    · have later := stable more
      rw [cons_append] at later
      rw [cons_append, cons_append, splitBoundary, if_neg different, later]
      rfl

/-- The reader of the texts between the boundaries. -/
def boundaries : RecordReader Char where
  first := splitBoundary
  shorter := by
    intro text event rest split
    rw [(eq_of_splitBoundary split).1, length_append, length_cons, length_cons]
    omega
  stable split := (eq_of_splitBoundary split).2.2

/-- What a data line says. -/
def dataOf (line : Text) : Option Text :=
  (stripPrefix "data:".toList line).map fun payload => payload.dropWhile isWhitespace

def addPayload (assembled payload : Text) : Text :=
  (if assembled.isEmpty then [] else assembled ++ ['\n']) ++ payload

/-- The payload of the text in front of a boundary. -/
def assemble (event : Text) : Text := ((lines event).filterMap dataOf).foldl addPayload []

/-- The reader goes on with what is left, or the handler has ended it. -/
inductive Drained (Failure : Type) where
  | goesOn (buffer : Text)
  | ended (result : Except (StreamError Failure) Unit)

section Reader

variable {Failure : Type} (handler : Handler Failure)

/-- All events of a buffer, with the payloads that the handler had. -/
def drain (given : List Text) (buffer : Text) : List Text × Drained Failure :=
  match _found : splitBoundary buffer with
  | none => (given, .goesOn buffer)
  | some (event, rest) =>
    let payload := assemble event
    if payload.isEmpty then drain given rest
    else
      match handler given payload with
      | .error failure => (given ++ [payload], .ended (.error (.handler failure)))
      | .ok true => (given ++ [payload], .ended (.ok ()))
      | .ok false => drain (given ++ [payload]) rest
termination_by buffer.length
decreasing_by all_goals exact boundaries.shorter _found

/-- The payloads that the handler gets, and the result. -/
def forEachSseEvent (given : List Text) (buffer : Text) :
    List (Except String (List UInt8)) → List Text × Except (StreamError Failure) Unit
  | [] => (given, .ok ())
  | .error why :: _ => (given, .error (.read why))
  | .ok chunk :: chunks =>
    match fromUtf8 chunk with
    | none => (given, .error .utf8)
    | some text =>
      match drain handler given (buffer ++ text) with
      | (given, .goesOn buffer) => forEachSseEvent given buffer chunks
      | (given, .ended result) => (given, result)

/-! ### Handlers -/

/-- Payloads given to a handler one after the other, up to the one it ends at. -/
def feed (given : List Text) : List Text → List Text × Option (Except Failure Unit)
  | [] => (given, none)
  | payload :: payloads =>
    match handler given payload with
    | .error failure => (given ++ [payload], some (.error failure))
    | .ok true => (given ++ [payload], some (.ok ()))
    | .ok false => feed (given ++ [payload]) payloads

/-- The result of a reader, by what it is if the handler did not end it. -/
def close (otherwise : Except (StreamError Failure) Unit) :
    List Text × Option (Except Failure Unit) → List Text × Except (StreamError Failure) Unit
  | (given, some result) => (given, result.mapError .handler)
  | (given, none) => (given, otherwise)

theorem close_fst (otherwise : Except (StreamError Failure) Unit)
    (fed : List Text × Option (Except Failure Unit)) : (close otherwise fed).1 = fed.1 := by
  rcases fed with ⟨given, _ | result⟩ <;> rfl

theorem close_snd_ne_utf8 (fed : List Text × Option (Except Failure Unit)) :
    (close (.ok ()) fed).2 ≠ .error .utf8 := by
  intro same
  rcases fed with ⟨given, _ | _ | result⟩ <;> cases same

variable {handler}

theorem feed_append (first second given : List Text) :
    feed handler given (first ++ second) =
      match feed handler given first with
      | (given, some result) => (given, some result)
      | (given, none) => feed handler given second := by
  induction first generalizing given with
  | nil => rfl
  | cons payload first inductionHypothesis =>
    rw [cons_append, feed, feed]
    cases handler given payload with
    | error failure => rfl
    | ok done =>
      cases done with
      | true => rfl
      | false => exact inductionHypothesis (given ++ [payload])

theorem feed_ne_none {first second given : List Text} (within : first <+: second)
    (ended : (feed handler given first).2 ≠ none) : (feed handler given second).2 ≠ none := by
  obtain ⟨more, rfl⟩ := within
  rw [feed_append]
  split
  · exact Option.some_ne_none _
  · rename_i same
    rw [same] at ended
    exact absurd rfl ended

/-- The next payload that a handler gets is the first one. -/
theorem feed_getElem? (given payloads : List Text) :
    (feed handler given payloads).1[given.length]? = payloads.head? ∧
      given <+: (feed handler given payloads).1 := by
  induction payloads generalizing given with
  | nil => exact ⟨getElem?_eq_none (Nat.le_refl _), prefix_refl given⟩
  | cons payload payloads inductionHypothesis =>
    have here : (given ++ [payload])[given.length]? = some payload := by
      rw [getElem?_append_right (Nat.le_refl _), Nat.sub_self]
      rfl
    rw [feed]
    split
    · exact ⟨here, prefix_append _ _⟩
    · exact ⟨here, prefix_append _ _⟩
    · obtain ⟨_, longer⟩ := inductionHypothesis (given ++ [payload])
      refine ⟨?_, (prefix_append _ _).trans longer⟩
      obtain ⟨more, whole⟩ := longer
      rw [← whole, getElem?_append_left (by rw [length_append]; exact Nat.lt_succ_self _),
        here]
      rfl

/-! ### Chunks -/

/-- The payloads of some events; empty ones are passed over. -/
def payloads (events : List Text) : List Text :=
  (events.map assemble).filter fun payload => !payload.isEmpty

theorem payloads_append (first second : List Text) :
    payloads (first ++ second) = payloads first ++ payloads second := by
  rw [payloads, map_append, filter_append]
  rfl

theorem drain_eq (buffer : Text) (given : List Text) :
    drain handler given buffer =
      match feed handler given (payloads (boundaries.records buffer).1) with
      | (given, some result) => (given, .ended (result.mapError .handler))
      | (given, none) => (given, .goesOn (boundaries.records buffer).2) := by
  induction buffer using boundaries.records_induction generalizing given with
  | none buffer none =>
    rw [RecordReader.records_of_none none, drain]
    split
    · rfl
    · rename_i found
      exact absurd (none.symm.trans found) (Option.some_ne_none _).symm
  | some buffer event rest found inductionHypothesis =>
    rw [RecordReader.records_of_some found, drain]
    split
    · rename_i none
      exact absurd (none.symm.trans found) (Option.some_ne_none _).symm
    · rename_i other after found'
      obtain ⟨rfl, rfl⟩ : other = event ∧ after = rest := by
        have same := Option.some.inj (found'.symm.trans found)
        exact ⟨congrArg Prod.fst same, congrArg Prod.snd same⟩
      have all : payloads (other :: (boundaries.records after).1) =
          if (assemble other).isEmpty then payloads (boundaries.records after).1
          else assemble other :: payloads (boundaries.records after).1 := by
        rw [payloads, map_cons, filter_cons]
        cases (assemble other).isEmpty <;> rfl
      dsimp only
      rw [all]
      by_cases empty : (assemble other).isEmpty
      · rw [if_pos empty, if_pos empty]
        exact inductionHypothesis given
      · rw [if_neg empty, if_neg empty, feed]
        cases handler given (assemble other) with
        | error failure => rfl
        | ok done =>
          cases done with
          | true => rfl
          | false => exact inductionHypothesis (given ++ [assemble other])

/-- What the chunks say up to the first that is no text, and whether there is none like that. -/
def readable : List (List UInt8) → Text × Bool
  | [] => ([], true)
  | chunk :: chunks =>
    match fromUtf8 chunk with
    | none => ([], false)
    | some text => (text ++ (readable chunks).1, (readable chunks).2)

/-- Where chunks are cut does not matter, apart from the first that is no text. -/
theorem forEachSseEvent_eq (chunks : List (List UInt8)) (given : List Text) {buffer : Text}
    (read : splitBoundary buffer = none) :
    forEachSseEvent handler given buffer (chunks.map .ok) =
      close (if (readable chunks).2 then .ok () else .error .utf8)
        (feed handler given
          (payloads (boundaries.records (buffer ++ (readable chunks).1)).1)) := by
  induction chunks generalizing given buffer with
  | nil =>
    rw [readable, append_nil, RecordReader.records_of_none read]
    rfl
  | cons chunk chunks inductionHypothesis =>
    rw [map_cons, forEachSseEvent, readable]
    cases decoded : fromUtf8 chunk with
    | none =>
      dsimp only
      rw [append_nil, RecordReader.records_of_none read]
      rfl
    | some text =>
      dsimp only
      rw [drain_eq, ← append_assoc, RecordReader.records_append (readable chunks).1,
        payloads_append, feed_append]
      have left : boundaries.first (boundaries.records (buffer ++ text)).2 = none :=
        RecordReader.first_rest _
      obtain ⟨given, result⟩ :=
        feed handler given (payloads (boundaries.records (buffer ++ text)).1)
      cases result with
      | some result => rfl
      | none => exact inductionHypothesis given left

end Reader

/-! ### The events of a stream -/

def join (data : List Text) : Text := List.intercalate ['\n'] data

/-- The lines that have ended, with a line feed or a carriage return and one. -/
def endedLines (text : Text) : List Text :=
  (rawLines text).filterMap fun piece => if piece.2 then some (stripCr piece.1) else none

/-- The data of the events that an empty line closes. An event without data is none. -/
def eventsOf (pending : List Text) : List Text → List (List Text)
  | [] => []
  | line :: rest =>
    if line.isEmpty then
      if pending.isEmpty then eventsOf [] rest else pending :: eventsOf [] rest
    else
      match dataOf line with
      | some payload => eventsOf (pending ++ [payload]) rest
      | none => eventsOf pending rest

def sseEvents (text : Text) : List Text := (eventsOf [] (endedLines text)).map join

/-- A handler is given the events of a stream up to the one it ends at. -/
def reference {Failure : Type} (handler : Handler Failure) (text : Text) :
    List Text × Except (StreamError Failure) Unit :=
  close (.ok ()) (feed handler [] (sseEvents text))

/-! ### Lines in front of a boundary -/

theorem rawLines_append_feed (first rest : Text) :
    rawLines (first ++ '\n' :: rest) = rawLines (first ++ ['\n']) ++ rawLines rest := by
  induction first with
  | nil => rfl
  | cons letter first inductionHypothesis =>
    rw [cons_append, cons_append, rawLines, rawLines, inductionHypothesis]
    split_ifs
    · rfl
    · cases pieces : rawLines (first ++ ['\n']) with
      | nil =>
        cases first with
        | nil => cases pieces
        | cons head first =>
          rw [cons_append, rawLines] at pieces
          split_ifs at pieces
          split at pieces <;> cases pieces
      | cons piece pieces => rfl

theorem endedLines_append_feed (first rest : Text) :
    endedLines (first ++ '\n' :: rest) = endedLines (first ++ ['\n']) ++ endedLines rest := by
  rw [endedLines, rawLines_append_feed, filterMap_append]
  rfl

theorem endedLines_boundary (event rest : Text) :
    endedLines (event ++ '\n' :: '\n' :: rest) =
      endedLines (event ++ ['\n']) ++ [] :: endedLines rest := by
  rw [endedLines_append_feed, show ('\n' :: rest) = [] ++ '\n' :: rest from rfl,
    endedLines_append_feed]
  rfl

theorem rawLines_cons (letter : Char) (text : Text) :
    rawLines (letter :: text) =
      if letter = '\n' then ([], true) :: rawLines text
      else
        match rawLines text with
        | [] => [([letter], false)]
        | (line, ended) :: more => (letter :: line, ended) :: more := rfl

/-- The last line in front of a boundary is the one that its line feed ends. -/
theorem rawLines_of_getLast? (nonempty : event ≠ []) (last : event.getLast? ≠ some '\n') :
    ∃ front final, rawLines event = front ++ [(final, false)] ∧
      rawLines (event ++ ['\n']) = front ++ [(final, true)] ∧ ∀ piece ∈ front, piece.2 = true := by
  induction event with
  | nil => exact absurd rfl nonempty
  | cons letter event inductionHypothesis =>
    cases event with
    | nil =>
      have other : letter ≠ '\n' := fun same => last (congrArg some same)
      refine ⟨[], [letter], ?_, ?_, forall_mem_nil _⟩
      · rw [rawLines, if_neg other]
        rfl
      · rw [singleton_append, rawLines, if_neg other]
        rfl
    | cons next event =>
      rw [getLast?_cons_cons] at last
      obtain ⟨front, final, here, ended, all⟩ := inductionHypothesis (cons_ne_nil _ _) last
      rw [cons_append, rawLines_cons letter (next :: event), rawLines_cons letter, here, ended]
      split_ifs
      · exact ⟨([], true) :: front, final, rfl, rfl, forall_mem_cons.mpr ⟨rfl, all⟩⟩
      · cases front with
        | nil => exact ⟨[], letter :: final, rfl, rfl, all⟩
        | cons piece front =>
          obtain ⟨first, others⟩ := forall_mem_cons.mp all
          exact ⟨(letter :: piece.1, piece.2) :: front, final, rfl, rfl,
            forall_mem_cons.mpr ⟨first, others⟩⟩

theorem feed_notMem_rawLines (text : Text) : ∀ piece ∈ rawLines text, '\n' ∉ piece.1 := by
  induction text with
  | nil => exact forall_mem_nil _
  | cons letter text inductionHypothesis =>
    rw [rawLines]
    split_ifs with feed
    · exact forall_mem_cons.mpr ⟨not_mem_nil, inductionHypothesis⟩
    · split
      · exact forall_mem_singleton.mpr fun member =>
          feed (mem_singleton.mp member).symm
      · rename_i line ended more pieces
        rw [pieces] at inductionHypothesis
        obtain ⟨here, others⟩ := forall_mem_cons.mp inductionHypothesis
        refine forall_mem_cons.mpr ⟨fun member => ?_, others⟩
        rcases mem_cons.mp member with same | inside
        · exact feed same.symm
        · exact here inside

theorem feed_notMem_lines {line : Text} (member : line ∈ lines text) : '\n' ∉ line := by
  obtain ⟨piece, inside, rfl⟩ := mem_map.mp member
  have plain := feed_notMem_rawLines text piece inside
  split_ifs
  · rw [stripCr]
    split_ifs
    · exact fun member => plain ((dropLast_sublist _).subset member)
    · exact plain
  · exact plain

theorem stripCr_concat (text : Text) : stripCr (text ++ ['\r']) = text := by
  rw [stripCr, getLast?_concat, if_pos rfl, dropLast_concat]

/-- A carriage return at the end of a data line is one at the end of what it says. -/
theorem dataOf_stripCr (line : Text) : dataOf (stripCr line) = (dataOf line).map stripCr := by
  by_cases carriage : line.getLast? = some '\r'
  · obtain ⟨front, rfl⟩ := getLast?_eq_some_iff.mp carriage
    rw [stripCr_concat]
    by_cases data : "data:".toList <+: front
    · obtain ⟨payload, rfl⟩ := data
      rw [dataOf, dataOf, append_assoc, stripPrefix_append, stripPrefix_append,
        Option.map_some, Option.map_some, Option.map_some, dropWhile_append]
      split_ifs with blank
      · rw [List.isEmpty_iff.mp blank]
        rfl
      · rw [stripCr_concat]
    · have other : ¬"data:".toList <+: front ++ ['\r'] := by
        rw [prefix_concat_iff, not_or]
        refine ⟨fun same => ?_, data⟩
        have last := congrArg List.getLast? same
        rw [getLast?_concat] at last
        revert last
        decide
      rw [dataOf, dataOf, stripPrefix, stripPrefix,
        if_neg (List.isPrefixOf_iff_prefix.not.mpr data),
        if_neg (List.isPrefixOf_iff_prefix.not.mpr other)]
      rfl
  · rw [stripCr, if_neg carriage]
    cases read : dataOf line with
    | none => rfl
    | some payload =>
      obtain ⟨rest, behind, rfl⟩ := Option.map_eq_some_iff.mp read
      rw [stripPrefix] at behind
      split_ifs at behind
      have within : rest.dropWhile isWhitespace <:+ line :=
        (dropWhile_suffix _).trans (Option.some.inj behind ▸ drop_suffix _ line)
      obtain ⟨front, whole⟩ := within
      have plain : (rest.dropWhile isWhitespace).getLast? ≠ some '\r' := by
        intro last
        rw [← whole, getLast?_append, last] at carriage
        exact carriage rfl
      rw [Option.map_some, stripCr, if_neg plain]

/-! ### Events in front of a boundary -/

theorem eventsOf_append (lines rest : List Text) (pending : List Text) :
    eventsOf pending (lines ++ [] :: rest) =
      eventsOf pending (lines ++ [[]]) ++ eventsOf [] rest := by
  induction lines generalizing pending with
  | nil =>
    rw [nil_append, nil_append, eventsOf, eventsOf, if_pos isEmpty_nil,
      if_pos isEmpty_nil]
    split_ifs <;> rfl
  | cons line lines inductionHypothesis =>
    rw [cons_append, cons_append, eventsOf, eventsOf]
    split_ifs
    · exact inductionHypothesis []
    · exact congrArg (pending :: ·) (inductionHypothesis [])
    · cases dataOf line with
      | none => exact inductionHypothesis pending
      | some payload => exact inductionHypothesis (pending ++ [payload])

/-- The data of an event is not empty, and all data is of some event once it is closed. -/
theorem eventsOf_closed (lines pending : List Text) :
    (∀ data ∈ eventsOf pending (lines ++ [[]]), data ≠ []) ∧
      (eventsOf pending (lines ++ [[]])).flatten = pending ++ lines.filterMap dataOf := by
  induction lines generalizing pending with
  | nil =>
    rw [nil_append, eventsOf, if_pos isEmpty_nil, filterMap_nil, append_nil]
    split_ifs with none
    · rw [List.isEmpty_iff.mp none]
      exact ⟨forall_mem_nil _, rfl⟩
    · refine ⟨forall_mem_singleton.mpr (List.isEmpty_iff.not.mp none), ?_⟩
      exact append_nil pending
  | cons line lines inductionHypothesis =>
    rw [cons_append, eventsOf]
    split_ifs with empty none
    · obtain ⟨some, all⟩ := inductionHypothesis []
      rw [List.isEmpty_iff.mp empty, List.isEmpty_iff.mp none]
      exact ⟨some, all⟩
    · obtain ⟨some, all⟩ := inductionHypothesis []
      rw [List.isEmpty_iff.mp empty, flatten_cons, all]
      exact ⟨forall_mem_cons.mpr ⟨List.isEmpty_iff.not.mp none, some⟩, rfl⟩
    · cases read : dataOf line with
      | none =>
        rw [filterMap_cons_none read]
        exact inductionHypothesis pending
      | some payload =>
        rw [filterMap_cons_some read, append_cons pending payload]
        exact inductionHypothesis (pending ++ [payload])

/-- The data of the events that are closed up to a boundary. -/
def eventData (event : Text) : List (List Text) :=
  eventsOf [] (endedLines (event ++ ['\n']) ++ [[]])

theorem eventsOf_records (text : Text) :
    eventsOf [] (endedLines text) = (boundaries.records text).1.flatMap eventData ++
      eventsOf [] (endedLines (boundaries.records text).2) := by
  induction text using boundaries.records_induction with
  | none text none => rw [RecordReader.records_of_none none]; rfl
  | some text event rest found inductionHypothesis =>
    rw [RecordReader.records_of_some found, (eq_of_splitBoundary found).1, endedLines_boundary,
      eventsOf_append, inductionHypothesis, flatMap_cons, append_assoc]
    rfl

theorem getLast?_of_mem_records :
    ∀ event ∈ (boundaries.records text).1, event.getLast? ≠ some '\n' := by
  induction text using boundaries.records_induction with
  | none text none =>
    rw [RecordReader.records_of_none none]
    exact forall_mem_nil _
  | some text event rest found inductionHypothesis =>
    rw [RecordReader.records_of_some found]
    exact forall_mem_cons.mpr ⟨(eq_of_splitBoundary found).2.1, inductionHypothesis⟩

/-! ### Where the two agree on an event -/

/-- The line in front of a boundary is data that ends in a carriage return. -/
def KeepsCarriage (event : Text) : Prop :=
  ∃ payload, (lines event).getLast?.bind dataOf = some payload ∧ payload.getLast? = some '\r'

/-- The text in front of a boundary has the data of one event at most, which begins with a line
that is not empty and keeps no carriage return. -/
def Clean (event : Text) : Prop :=
  eventData event = [] ∨
    ∃ data, eventData event = [data] ∧ data.head? ≠ some [] ∧ ¬KeepsCarriage event

/-- Payloads with a line feed in front of each. -/
def fed (data : List Text) : Text := data.flatMap ('\n' :: ·)

theorem fed_cons (payload : Text) (data : List Text) :
    fed (payload :: data) = '\n' :: (payload ++ fed data) := rfl

theorem join_cons (payload : Text) (data : List Text) :
    join (payload :: data) = payload ++ fed data := by
  induction data generalizing payload with
  | nil => exact (intercalate_singleton).trans (append_nil payload).symm
  | cons next data inductionHypothesis =>
    rw [join, intercalate_cons_cons, ← join, inductionHypothesis, append_assoc]
    rfl

theorem foldl_addPayload {assembled : Text} (some : assembled ≠ []) (data : List Text) :
    data.foldl addPayload assembled = assembled ++ fed data := by
  induction data generalizing assembled with
  | nil => exact (append_nil assembled).symm
  | cons payload data inductionHypothesis =>
    have step : addPayload assembled payload = assembled ++ '\n' :: payload := by
      rw [addPayload, isEmpty_eq_false_iff.mpr some, if_neg Bool.false_ne_true,
        append_assoc]
      rfl
    rw [foldl_cons, step, inductionHypothesis (append_ne_nil_of_left_ne_nil some _),
      append_assoc]
    rfl

variable {payload : Text}

theorem foldl_addPayload_cons (some : payload ≠ []) (data : List Text) :
    (payload :: data).foldl addPayload [] = join (payload :: data) := by
  rw [foldl_cons, show addPayload [] payload = payload from rfl, foldl_addPayload some,
    join_cons]

/-- What is assembled does not begin with a line feed. -/
theorem head?_assemble (event : Text) : (assemble event).head? ≠ some '\n' := by
  have plain : ∀ payload ∈ (lines event).filterMap dataOf, '\n' ∉ payload := by
    intro payload member
    obtain ⟨line, inside, read⟩ := mem_filterMap.mp member
    obtain ⟨rest, behind, rfl⟩ := Option.map_eq_some_iff.mp read
    rw [stripPrefix] at behind
    split_ifs at behind
    cases behind
    exact fun feed => feed_notMem_lines inside
      ((drop_suffix _ line).subset ((dropWhile_suffix _).subset feed))
  rw [assemble]
  generalize (lines event).filterMap dataOf = data at plain
  induction data with
  | nil => exact fun none => by cases none
  | cons payload data inductionHypothesis =>
    obtain ⟨here, others⟩ := forall_mem_cons.mp plain
    by_cases some : payload = []
    · subst some
      exact inductionHypothesis others
    · rw [foldl_addPayload_cons some, join_cons, head?_append_of_ne_nil _ some]
      exact fun feed => here (mem_of_mem_head? feed)

theorem mem_payloads {events : List Text} (member : payload ∈ payloads events) :
    payload ≠ [] ∧ payload.head? ≠ some '\n' := by
  obtain ⟨inside, some⟩ := mem_filter.mp member
  obtain ⟨event, _, rfl⟩ := mem_map.mp inside
  exact ⟨isEmpty_eq_false_iff.mp ((Bool.not_eq_true' _).mp some), head?_assemble event⟩

/-- The data the reader sees is the data of the events, apart from a carriage return. -/
theorem exists_data (last : event.getLast? ≠ some '\n') :
    ∃ (front : List Text) (final : Option Text),
      (lines event).filterMap dataOf = front ++ final.toList ∧
        (eventData event).flatten = front ++ (final.map stripCr).toList ∧
        (KeepsCarriage event ↔ ∃ payload, final = some payload ∧ payload.getLast? = some '\r') := by
  rw [eventData, (eventsOf_closed _ []).2, nil_append, KeepsCarriage]
  by_cases nonempty : event = []
  · subst nonempty
    exact ⟨[], none, rfl, rfl, Iff.rfl⟩
  · obtain ⟨front, final, here, ended, all⟩ := rawLines_of_getLast? nonempty last
    have stripped :
        (front.filterMap fun piece => if piece.2 then some (stripCr piece.1) else none) =
        front.map fun piece => if piece.2 then stripCr piece.1 else piece.1 := by
      rw [← filterMap_eq_map]
      refine filterMap_congr fun piece member => ?_
      rw [Function.comp_apply, if_pos (all piece member), if_pos (all piece member)]
    have single : ∀ line, [line].filterMap dataOf = (dataOf line).toList := by
      intro line
      cases read : dataOf line with
      | none => rw [filterMap_cons_none read]; rfl
      | some payload => rw [filterMap_cons_some read]; rfl
    refine ⟨(front.map fun piece => if piece.2 then stripCr piece.1 else piece.1).filterMap dataOf,
      dataOf final, ?_, ?_, ?_⟩
    · rw [lines, here, map_append, filterMap_append]
      exact congrArg _ (single final)
    · rw [endedLines, ended, filterMap_append, stripped, filterMap_append,
        ← dataOf_stripCr]
      exact congrArg _ (single (stripCr final))
    · rw [lines, here, map_append, map_singleton, getLast?_concat, Option.bind_some]
      rfl

theorem length_fed (data : List Text) :
    (fed data).length = (data.map fun payload => payload.length + 1).sum := by
  induction data with
  | nil => rfl
  | cons payload data inductionHypothesis =>
    rw [fed, flatMap_cons, ← fed, length_append, inductionHypothesis]
    rfl

theorem fed_append (first second : List Text) : fed (first ++ second) = fed first ++ fed second :=
  flatMap_append

/-- A carriage return that is kept makes a payload longer. -/
theorem length_stripCr (payload : Text) :
    (stripCr payload).length ≤ payload.length ∧
      (payload.getLast? = some '\r' → (stripCr payload).length < payload.length) := by
  by_cases carriage : payload.getLast? = some '\r'
  · obtain ⟨front, rfl⟩ := getLast?_eq_some_iff.mp carriage
    rw [stripCr_concat, length_append, length_singleton]
    exact ⟨Nat.le_succ _, fun _ => Nat.lt_succ_self _⟩
  · rw [stripCr, if_neg carriage]
    exact ⟨Nat.le_refl _, fun impossible => absurd impossible carriage⟩

/-- The data without the carriage return at its end is no longer, and shorter if there is one. -/
theorem length_fed_stripCr (front : List Text) (final : Option Text) :
    (fed (front ++ (final.map stripCr).toList)).length ≤ (fed (front ++ final.toList)).length ∧
      ((∃ payload, final = some payload ∧ payload.getLast? = some '\r') →
        (fed (front ++ (final.map stripCr).toList)).length <
          (fed (front ++ final.toList)).length) := by
  rw [fed_append, fed_append, length_append, length_append]
  cases final with
  | none =>
    refine ⟨Nat.le_refl _, ?_⟩
    rintro ⟨payload, ⟨⟩, _⟩
  | some payload =>
    obtain ⟨shorter, strict⟩ := length_stripCr payload
    have single : ∀ payload : Text, (fed [payload]).length = payload.length + 1 := by
      intro payload
      rw [length_fed]
      rfl
    rw [Option.map_some, Option.toList_some, Option.toList_some, single, single]
    refine ⟨by omega, ?_⟩
    rintro ⟨_, ⟨⟩, carriage⟩
    have less := strict carriage
    omega

/-- What is assembled from data, the first line of which is not empty. -/
theorem fed_assemble {front data : List Text} {final : Option Text}
    (read : (lines event).filterMap dataOf = front ++ final.toList)
    (flat : payload :: data = front ++ (final.map stripCr).toList) (some : payload ≠ []) :
    '\n' :: assemble event = fed (front ++ final.toList) := by
  have begins : ∃ head rest, front ++ final.toList = head :: rest ∧ head ≠ [] := by
    cases front with
    | cons head front => exact ⟨head, _, rfl, (cons.inj flat).1 ▸ some⟩
    | nil =>
      cases final with
      | none => cases flat
      | some head =>
        refine ⟨head, [], rfl, ?_⟩
        rintro rfl
        exact some (cons.inj flat).1
  obtain ⟨head, rest, whole, nonempty⟩ := begins
  rw [assemble, read, whole, foldl_addPayload_cons nonempty, join_cons]
  rfl

/-- A clean text gives the handler the payload of its event. -/
theorem payloads_of_clean (last : event.getLast? ≠ some '\n') (clean : Clean event) :
    payloads [event] = (eventData event).map join := by
  obtain ⟨front, final, read, flat, keeps⟩ := exists_data last
  have kept : ¬KeepsCarriage event → (final.map stripCr).toList = final.toList := by
    intro plain
    cases final with
    | none => rfl
    | some payload =>
      have other : payload.getLast? ≠ some '\r' := fun carriage =>
        plain (keeps.mpr ⟨payload, rfl, carriage⟩)
      rw [Option.map_some, stripCr, if_neg other]
  have whole : payloads [event] =
      if (assemble event).isEmpty then [] else [assemble event] := by
    rw [payloads, map_singleton, filter_singleton]
    cases (assemble event).isEmpty <;> rfl
  rcases clean with none | ⟨data, single, head, plain⟩
  · rw [none, flatten_nil] at flat
    obtain ⟨noFront, noFinal⟩ := append_eq_nil_iff.mp flat.symm
    have absent : final = Option.none := by
      cases final with
      | none => rfl
      | some payload => cases noFinal
    rw [whole, none, assemble, read, noFront, absent]
    rfl
  · rw [single, flatten_singleton, kept plain, ← read] at flat
    have some := (eventsOf_closed (endedLines (event ++ ['\n'])) []).1 data (by
      show data ∈ eventData event
      rw [single]
      exact mem_singleton_self data)
    obtain ⟨payload, rest, rfl⟩ := exists_cons_of_ne_nil some
    have nonempty : payload ≠ [] := fun none => head (congrArg Option.some none)
    rw [whole, single, assemble, ← flat, foldl_addPayload_cons nonempty, map_singleton,
      isEmpty_eq_false_iff.mpr, if_neg Bool.false_ne_true]
    rw [join_cons]
    exact append_ne_nil_of_left_ne_nil nonempty _

/-- Behind a text that is not clean the handler is given something else than its first event. -/
theorem differs_of_not_clean (last : event.getLast? ≠ some '\n') (unclean : ¬Clean event) :
    ∃ first others, eventData event = first :: others ∧
      ∀ later, (payloads (event :: later)).head? ≠ some (join first) := by
  obtain ⟨front, final, read, flat, keeps⟩ := exists_data last
  cases events : eventData event with
  | nil => exact absurd (.inl events) unclean
  | cons first others =>
    refine ⟨first, others, rfl, fun later same => ?_⟩
    have nonempty : ∀ data ∈ first :: others, data ≠ [] :=
      events ▸ (eventsOf_closed (endedLines (event ++ ['\n'])) []).1
    obtain ⟨some, otherData⟩ := forall_mem_cons.mp nonempty
    obtain ⟨payload, rest, rfl⟩ := exists_cons_of_ne_nil some
    obtain ⟨notEmpty, notFeed⟩ := mem_payloads (mem_of_head? same)
    rw [join_cons] at same notEmpty notFeed
    -- A first line that is empty leaves nothing, or a line feed in front.
    have letters : payload ≠ [] := by
      rintro rfl
      cases rest with
      | nil => exact notEmpty rfl
      | cons next rest => exact notFeed rfl
    have begins : payload :: (rest ++ others.flatten) = front ++ (final.map stripCr).toList := by
      rw [← flat, events, flatten_cons, cons_append]
    have whole := fed_assemble read begins letters
    have here : assemble event = payload ++ fed rest := by
      have full : (assemble event).isEmpty = false := by
        rw [isEmpty_eq_false_iff]
        intro none
        have lengths := (length_fed_stripCr front final).1
        rw [← begins, ← whole, none, fed_cons, length_cons, length_append] at lengths
        have positive := length_pos_of_ne_nil letters
        rw [length_singleton] at lengths
        omega
      rw [payloads, map_cons, filter_cons_of_pos (by rw [full]; rfl),
        head?_cons] at same
      exact Option.some.inj same
    obtain ⟨atMost, strict⟩ := length_fed_stripCr front final
    rw [← begins, ← whole, here] at atMost strict
    rw [show payload :: (rest ++ others.flatten) = (payload :: rest) ++ others.flatten from rfl,
      fed_append, length_append, fed_cons] at atMost strict
    have noCarriage : ¬KeepsCarriage event := fun carriage => by
      have less := strict (keeps.mp carriage)
      omega
    have noOthers : others = [] := by
      rcases others with - | ⟨data, others⟩
      · rfl
      · obtain ⟨next, after, rfl⟩ := exists_cons_of_ne_nil (otherData data mem_cons_self)
        rw [flatten_cons, cons_append, fed_cons next, length_cons,
          length_cons] at atMost
        omega
    subst noOthers
    exact unclean (.inr ⟨payload :: rest, events, fun head => letters (Option.some.inj head),
      noCarriage⟩)

/-! ### Where the two agree on a stream -/

theorem payloads_of_all_clean {events : List Text}
    (last : ∀ event ∈ events, event.getLast? ≠ some '\n') (clean : ∀ event ∈ events, Clean event) :
    payloads events = (events.flatMap eventData).map join := by
  induction events with
  | nil => rfl
  | cons event events inductionHypothesis =>
    obtain ⟨lastHere, lastOthers⟩ := forall_mem_cons.mp last
    obtain ⟨here, others⟩ := forall_mem_cons.mp clean
    rw [← singleton_append, payloads_append, payloads_of_clean lastHere here,
      inductionHypothesis lastOthers others, flatMap_append, map_append,
      flatMap_singleton]

/-- Either all texts are clean or there is a first that is not. -/
theorem clean_or_first (events : List Text) :
    (∀ event ∈ events, Clean event) ∨
      ∃ done event later, events = done ++ event :: later ∧ (∀ event ∈ done, Clean event) ∧
        ¬Clean event := by
  induction events with
  | nil => exact .inl (forall_mem_nil _)
  | cons event events inductionHypothesis =>
    by_cases clean : Clean event
    · rcases inductionHypothesis with all | ⟨done, other, later, rfl, before, unclean⟩
      · exact .inl (forall_mem_cons.mpr ⟨clean, all⟩)
      · exact .inr ⟨event :: done, other, later, rfl,
          forall_mem_cons.mpr ⟨clean, before⟩, unclean⟩
    · exact .inr ⟨[], event, events, rfl, forall_mem_nil _, clean⟩

/-- The text of the chunks is the beginning of the stream, and all of it if all chunks are texts. -/
theorem readable_append {chunks : List (List UInt8)} (whole : chunks.flatten = utf8Bytes text) :
    ∃ more, text = (readable chunks).1 ++ more ∧ ((readable chunks).2 = true → more = []) := by
  induction chunks generalizing text with
  | nil =>
    refine ⟨text, rfl, fun _ => ?_⟩
    cases text with
    | nil => rfl
    | cons letter text =>
      exact absurd (append_eq_nil_iff.mp whole.symm).1 String.utf8EncodeChar_ne_nil
  | cons chunk chunks inductionHypothesis =>
    rw [readable]
    cases decoded : fromUtf8 chunk with
    | none => exact ⟨text, rfl, fun impossible => absurd impossible Bool.false_ne_true⟩
    | some first =>
      rw [flatten_cons, fromUtf8_eq_some_iff.mp decoded] at whole
      obtain ⟨rest, rfl⟩ := exists_append_of_utf8Bytes whole
      rw [utf8Bytes_append] at whole
      obtain ⟨more, rfl, all⟩ := inductionHypothesis (append_cancel_left whole)
      exact ⟨more, (append_assoc _ _ _).symm, all⟩

/-- What is clean up to its end stands in front of the first text that is not. -/
theorem isPrefix_of_clean {done before later : List Text}
    (within : done <+: before ++ event :: later) (clean : ∀ event ∈ done, Clean event)
    (unclean : ¬Clean event) : done <+: before := by
  rcases prefix_or_prefix_of_prefix within (prefix_append before (event :: later)) with
    inside | ⟨more, rfl⟩
  · exact inside
  · cases more with
    | nil => exact (append_nil before).symm ▸ prefix_refl before
    | cons other more =>
      have same := (cons_prefix_cons.mp ((prefix_append_right_inj before).mp within)).1
      exact absurd (clean event (same ▸ mem_append_right before mem_cons_self)) unclean

section Agreement

variable {Failure : Type} (handler : Handler Failure)

/-- The texts in front of the boundaries are clean up to one at which the handler ends; or they all
are, no event is closed behind them, and every chunk is a text. -/
def CleanUpToTheEnd (chunks : List (List UInt8)) : Prop :=
  (∃ done, done <+: (boundaries.records (readable chunks).1).1 ∧ (∀ event ∈ done, Clean event) ∧
      (feed handler [] ((done.flatMap eventData).map join)).2 ≠ none) ∨
    ((readable chunks).2 = true ∧
      (∀ event ∈ (boundaries.records (readable chunks).1).1, Clean event) ∧
      eventsOf [] (endedLines (boundaries.records (readable chunks).1).2) = [])

/-- However a text is cut, the handler is given the payloads of its events, and the result is that
of the events, exactly when the texts in front of the boundaries are clean up to the end. -/
theorem forEachSseEvent_eq_reference_iff {chunks : List (List UInt8)} {text : Text}
    (whole : chunks.flatten = utf8Bytes text) :
    forEachSseEvent handler [] [] (chunks.map .ok) = reference handler text ↔
      CleanUpToTheEnd handler chunks := by
  obtain ⟨more, rfl, all⟩ := readable_append whole
  obtain ⟨later, split, none⟩ : ∃ later, sseEvents ((readable chunks).1 ++ more) =
      ((boundaries.records (readable chunks).1).1.flatMap eventData).map join ++ later ∧
        (more = [] → (later = [] ↔
          eventsOf [] (endedLines (boundaries.records (readable chunks).1).2) = [])) := by
    refine ⟨sseEvents ((boundaries.records (readable chunks).1).2 ++ more), ?_, ?_⟩
    · rw [sseEvents, sseEvents, eventsOf_records, RecordReader.records_append, flatMap_append,
        eventsOf_records (_ ++ more), append_assoc, map_append]
    · rintro rfl
      rw [append_nil, sseEvents, map_eq_nil_iff]
  have closed := @getLast?_of_mem_records (readable chunks).1
  rw [forEachSseEvent_eq chunks [] rfl, nil_append, reference, CleanUpToTheEnd, split]
  clear split
  generalize (boundaries.records (readable chunks).1).1 = events at closed ⊢
  generalize (boundaries.records (readable chunks).1).2 = rest at none ⊢
  rcases clean_or_first events with clean | ⟨before, event, after, rfl, clean, unclean⟩
  · rw [payloads_of_all_clean closed clean, feed_append]
    cases fed : feed handler [] ((events.flatMap eventData).map join) with
    | mk given ended =>
      cases ended with
      | some result =>
        refine iff_of_true rfl (.inl ⟨events, prefix_refl events, clean, ?_⟩)
        rw [fed]
        exact Option.some_ne_none result
      | none =>
        have goesOn : ¬∃ done, done <+: events ∧ (∀ event ∈ done, Clean event) ∧
            (feed handler [] ((done.flatMap eventData).map join)).2 ≠ Option.none := by
          rintro ⟨_, ⟨others, rfl⟩, _, ended⟩
          rw [flatMap_append, map_append] at fed
          exact feed_ne_none (prefix_append _ _) ended (congrArg Prod.snd fed)
        dsimp only
        rw [or_iff_right goesOn, and_iff_right clean]
        cases readAll : (readable chunks).2 with
        | false =>
          refine iff_of_false (fun same => ?_) (fun impossible => Bool.false_ne_true impossible.1)
          exact close_snd_ne_utf8 _ (congrArg Prod.snd same).symm
        | true =>
          rw [and_iff_right rfl, ← none (all readAll), if_pos rfl]
          constructor
          · intro same
            have next := (@feed_getElem? Failure handler given later).1
            rw [← close_fst (.ok ()), ← same, close, getElem?_eq_none (Nat.le_refl _)] at next
            exact head?_eq_none_iff.mp next.symm
          · rintro rfl
            rfl
  · obtain ⟨lastBefore, lastHere⟩ := forall_mem_append.mp closed
    have whole : payloads (before ++ event :: after) =
        (before.flatMap eventData).map join ++ payloads (event :: after) := by
      rw [payloads_append, payloads_of_all_clean lastBefore clean]
    rw [whole, flatMap_append, map_append, append_assoc, feed_append, feed_append]
    cases fed : feed handler [] ((before.flatMap eventData).map join) with
    | mk given ended =>
      cases ended with
      | some result =>
        refine iff_of_true rfl (.inl ⟨before, prefix_append _ _, clean, ?_⟩)
        rw [fed]
        exact Option.some_ne_none result
      | none =>
        refine iff_of_false (fun same => ?_) ?_
        · obtain ⟨first, others, data, differs⟩ :=
            differs_of_not_clean (lastHere event mem_cons_self) unclean
          have read := (@feed_getElem? Failure handler given (payloads (event :: after))).1
          rw [← close_fst (if (readable chunks).2 then .ok () else .error .utf8), same, close_fst,
            (feed_getElem? given _).1, flatMap_cons, data] at read
          exact differs after read.symm
        · rintro (⟨done, within, cleanDone, ended⟩ | ⟨_, cleanAll, _⟩)
          · refine feed_ne_none ?_ ended (congrArg Prod.snd fed)
            obtain ⟨others, rfl⟩ := isPrefix_of_clean within cleanDone unclean
            rw [flatMap_append, map_append]
            exact prefix_append _ _
          · exact unclean (cleanAll event (mem_append_right before mem_cons_self))

end Agreement

def neverDone : Handler Unit := fun _ _ => .ok false

theorem forEachSseEvent_eq_reference_hi :
    forEachSseEvent neverDone [] []
        ([utf8Bytes "data: h".toList, utf8Bytes "i\n\n".toList].map .ok) =
      reference neverDone "data: hi\n\n".toList := by
  refine (forEachSseEvent_eq_reference_iff _ (by decide)).mpr (.inr ?_)
  have read : readable [utf8Bytes "data: h".toList, utf8Bytes "i\n\n".toList] =
      ("data: hi\n\n".toList, true) := by decide
  have records : boundaries.records "data: hi\n\n".toList = (["data: hi".toList], []) := by
    have found : boundaries.first "data: hi\n\n".toList = some ("data: hi".toList, []) := by decide
    rw [RecordReader.records_of_some found, RecordReader.records_of_none rfl]
  rw [read, records]
  refine ⟨rfl, forall_mem_singleton.mpr (.inr ⟨["hi".toList], by decide, by decide, ?_⟩), rfl⟩
  rintro ⟨payload, isLast, carriage⟩
  obtain rfl : "hi".toList = payload := Option.some.inj isLast
  revert carriage
  decide

/-- A chunk that is cut inside a character ends the stream, and events whose lines end in a
carriage return and a line feed are not seen. -/
theorem forEachSseEvent_ne_reference :
    (forEachSseEvent neverDone [] []
        ([utf8Bytes "data: ".toList ++ [0xC3], [0xA9] ++ utf8Bytes "\n\n".toList].map .ok) =
          ([], .error .utf8) ∧
      reference neverDone "data: é\n\n".toList = (["é".toList], .ok ())) ∧
    forEachSseEvent neverDone [] []
        ([utf8Bytes "data: hi\r\n\r\n".toList].map .ok) = ([], .ok ()) ∧
      reference neverDone "data: hi\r\n\r\n".toList =
        (["hi".toList], .ok ()) := by
  refine ⟨⟨by decide, by decide⟩, ?_, by decide⟩
  have none : boundaries.records "data: hi\r\n\r\n".toList =
      ([], "data: hi\r\n\r\n".toList) := RecordReader.records_of_none (by decide)
  have read : readable [utf8Bytes "data: hi\r\n\r\n".toList] =
      ("data: hi\r\n\r\n".toList, true) := by decide
  rw [forEachSseEvent_eq _ [] rfl, read, nil_append, none]
  rfl

end Oryxis.Events

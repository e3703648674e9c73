/-
This file is when the scanner finds the marks of the shell integration that a terminal
finds, and when the number of a command line leads to that command line.

What a terminal finds is what a parser of control sequences delimits: an escape byte ends
whatever was open and may begin a sequence of its own, and a cancelling byte ends it too.
The scanner drops a sequence that an escape byte interrupts together with the byte behind
it, keeps one open over two escape bytes and reads on over a cancelling byte. Where none of
this happens and no empty nonce is installed, the two find the same.
-/

import Mathlib.Data.List.Forall2
import Oryxis.Library.Machine
import Oryxis.Terminal.Osc

namespace Oryxis.Terminal.Osc

open Library List

/-! ### Delimited sequences -/

abbrev cancel : UInt8 := 0x18
abbrev substitute : UInt8 := 0x1a

/-- Where a parser of control sequences stands, as far as commands go. -/
inductive Parser where
  | ground
  /-- After an escape byte, with the command it ends if its terminator comes. -/
  | escape (opened : Option (List UInt8))
  | command (payload : List UInt8)

/-- One byte, with the payload of the command it ends. -/
def Parser.step : Parser → UInt8 → Parser × Option (List UInt8)
  | .ground, byte => (if byte = esc then .escape none else .ground, none)
  | .escape opened, byte =>
    if byte = bracket then (.command [], none)
    else if byte = esc then (.escape none, none)
    else if byte = backslash then (.ground, opened)
    else (.ground, none)
  | .command payload, byte =>
    if byte = bel then (.ground, some payload)
    else if byte = esc then (.escape (some payload), none)
    else if byte = cancel ∨ byte = substitute then (.ground, none)
    else (.command (payload ++ [byte]), none)

/-- What a command tells about the shell. -/
inductive Meaning where
  | promptStart
  | promptEnd
  | outputStart
  | commandEnd (code : Option Int)
  | commandLine (text : String)
  deriving DecidableEq, Repr

def meaning133 (rest : List Char) : Option Meaning :=
  match rest with
  | 'A' :: _ => some .promptStart
  | 'B' :: _ => some .promptEnd
  | 'C' :: _ => some .outputStart
  | 'D' :: _ =>
    some (.commandEnd ((splitOnce ';' rest).bind fun parts => parseI32 (firstField parts.2)))
  | _ => none

/-- A command line is told only with the installed nonce, and not with an empty one. -/
def meaning633 (nonce : Option String) (fields : List (List Char)) : Option Meaning :=
  match fields with
  | ['A'] :: _ => some .promptStart
  | ['B'] :: _ => some .promptEnd
  | ['C'] :: _ => some .outputStart
  | ['D'] :: code => some (.commandEnd (code.head?.bind parseI32))
  | [['E'], raw, last] =>
    if nonce = some (String.ofList last) ∧ last ≠ [] ∧ decodeOsc633Arg raw ≠ "" then
      some (.commandLine (decodeOsc633Arg raw))
    else none
  | _ => none

def meaning (nonce : Option String) (payload : List UInt8) : Option Meaning :=
  if maxOsc < payload.length then none
  else
    match (fromUtf8 payload).bind (splitOnce ';') with
    | some (['1', '3', '3'], rest) => meaning133 rest
    | some (['6', '3', '3'], rest) => meaning633 nonce (splitn 3 ';' rest)
    | _ => none

/-- What a payload begins with that tells a command line. -/
def lineBeginning : List Char := ['6', '3', '3', ';', 'E', ';']

/-! ### Runs -/

/-- What is done to a pane. -/
inductive Event where
  | feed (bytes : List UInt8)
  | setCommandNonce (nonce : Option String)
  | setGlobalCommandNonce (nonce : Option String)
  | takeCommandLines

/-- An event in the steps it has. -/
inductive Action where
  | byte (byte : UInt8)
  | setCommandNonce (nonce : Option String)
  | setGlobalCommandNonce (nonce : Option String)
  | takeCommandLines

def Event.actions : Event → List Action
  | .feed bytes => bytes.map Action.byte
  | .setCommandNonce nonce => [.setCommandNonce nonce]
  | .setGlobalCommandNonce nonce => [.setGlobalCommandNonce nonce]
  | .takeCommandLines => [.takeCommandLines]

/-- The last two bytes are escape bytes. -/
def Doubled (fed : List UInt8) : Prop :=
  fed.getLast? = some esc ∧ fed.dropLast.getLast? = some esc
  deriving Decidable

/-- A scanner with the output it was fed and the marks it has reported, at offsets in all of it. -/
structure Pane where
  sniffer : OscSniffer
  globalNonce : Option String
  fed : List UInt8
  reported : List (Nat × ShellMark)

namespace Pane

def start : Pane := ⟨.default, none, [], []⟩

def perform (pane : Pane) : Event → Pane
  | .feed bytes =>
    let fed := pane.sniffer.feed pane.globalNonce bytes
    { pane with
      sniffer := fed.1
      fed := pane.fed ++ bytes
      reported := pane.reported ++
        fed.2.map fun event => (pane.fed.length + event.offset, event.mark) }
  | .setCommandNonce nonce => { pane with sniffer := pane.sniffer.setCommandNonce nonce }
  | .setGlobalCommandNonce nonce => { pane with globalNonce := nonce }
  | .takeCommandLines => { pane with sniffer := pane.sniffer.takeCommandLines.1 }

def performAll (pane : Pane) (events : List Event) : Pane := events.foldl perform pane

/-- The nonce a command line has to come with. -/
def installed (pane : Pane) : Option String := pane.sniffer.nonce.or pane.globalNonce

def act (pane : Pane) : Action → Pane
  | .byte byte =>
    let fed := pane.sniffer.feedByte pane.globalNonce byte
    { pane with
      sniffer := fed.1
      fed := pane.fed ++ [byte]
      reported := pane.reported ++ (fed.2.map (pane.fed.length + 1, ·)).toList }
  | .setCommandNonce nonce => pane.perform (.setCommandNonce nonce)
  | .setGlobalCommandNonce nonce => pane.perform (.setGlobalCommandNonce nonce)
  | .takeCommandLines => pane.perform .takeCommandLines

/-- Where the scanner and a terminal part: the byte behind an escape byte in a sequence begins
another one, or ends the sequence that the first of two escape bytes had ended; a sequence is
cancelled; a command line comes with an empty nonce. -/
def Parts (pane : Pane) : Action → Prop
  | .byte byte =>
    pane.sniffer.scan = .oscEsc ∧ byte = bracket ∨
    pane.sniffer.scan = .oscEsc ∧ byte = backslash ∧ Doubled pane.fed ∨
    pane.sniffer.scan = .osc ∧ (byte = cancel ∨ byte = substitute) ∨
    (pane.sniffer.scan = .osc ∧ byte = bel ∨ pane.sniffer.scan = .oscEsc ∧ byte = backslash) ∧
      pane.installed = some "" ∧ utf8Bytes lineBeginning <+: pane.sniffer.buf
  | _ => False

instance (pane : Pane) (action : Action) : Decidable (pane.Parts action) := by
  cases action <;> unfold Parts <;> infer_instance

end Pane

/-- A sequence that was delimited, with the offset behind it and the nonce installed then. -/
structure Sequence where
  offset : Nat
  payload : List UInt8
  nonce : Option String

def Sequence.meaning (sequence : Sequence) : Option Meaning :=
  Osc.meaning sequence.nonce sequence.payload

/-- A terminal that delimits sequences and knows the nonces. -/
structure Emulator where
  parser : Parser
  nonce : Option String
  globalNonce : Option String
  offset : Nat
  sequences : List Sequence

namespace Emulator

def start : Emulator := ⟨.ground, none, none, 0, []⟩

def act (emulator : Emulator) : Action → Emulator
  | .byte byte =>
    let parsed := emulator.parser.step byte
    { emulator with
      parser := parsed.1
      offset := emulator.offset + 1
      sequences := emulator.sequences ++ (parsed.2.map fun payload =>
        ⟨emulator.offset + 1, payload, emulator.nonce.or emulator.globalNonce⟩).toList }
  | .setCommandNonce nonce => { emulator with nonce := nonce }
  | .setGlobalCommandNonce nonce => { emulator with globalNonce := nonce }
  | .takeCommandLines => emulator

def actAll (emulator : Emulator) (actions : List Action) : Emulator := actions.foldl act emulator

/-- The marks with their offsets. -/
def found (emulator : Emulator) : List (Nat × Meaning) :=
  emulator.sequences.filterMap fun sequence => sequence.meaning.map (sequence.offset, ·)

end Emulator

/-! ### The end of a sequence -/

/-- The scanner keeps its command lines, their numbers and its nonce. -/
structure Keeps (before after : OscSniffer) : Prop where
  commandLines : after.commandLines = before.commandLines
  commandSeq : after.commandSeq = before.commandSeq
  nonce : after.nonce = before.nonce

/-- A mark that has no text has the meaning. -/
inductive Plain : ShellMark → Meaning → Prop where
  | promptStart : Plain .promptStart .promptStart
  | promptEnd : Plain .promptEnd .promptEnd
  | outputStart : Plain .outputStart .outputStart
  | commandEnd (code : Option Int) : Plain (.commandEnd code) (.commandEnd code)

/-- What the end of a sequence does, in terms of what the sequence means. -/
inductive Outcome (before after : OscSniffer) : Option ShellMark → Option Meaning → Prop where
  | silent (keeps : Keeps before after) : Outcome before after none none
  | plain {mark : ShellMark} {meaning : Meaning} (keeps : Keeps before after)
      (isPlain : Plain mark meaning) : Outcome before after (some mark) (some meaning)
  | line {text : String}
      (commandLines : after.commandLines = (before.keepCommandLine text).commandLines)
      (commandSeq : after.commandSeq = before.commandSeq + 1)
      (nonce : after.nonce = before.nonce) :
      Outcome before after (some (.commandLine before.commandSeq)) (some (.commandLine text))

theorem Keeps.refl (sniffer : OscSniffer) : Keeps sniffer sniffer := ⟨rfl, rfl, rfl⟩

variable {before after : OscSniffer} {mark : Option ShellMark}

theorem Outcome.of_keeps {middle : OscSniffer} {meaning : Option Meaning}
    (keeps : Keeps before middle) (outcome : Outcome middle after mark meaning) :
    Outcome before after mark meaning := by
  obtain ⟨lines, seq, nonce⟩ := keeps
  cases outcome with
  | silent keeps =>
    exact .silent ⟨keeps.commandLines.trans lines, keeps.commandSeq.trans seq,
      keeps.nonce.trans nonce⟩
  | plain keeps isPlain =>
    exact .plain ⟨keeps.commandLines.trans lines, keeps.commandSeq.trans seq,
      keeps.nonce.trans nonce⟩ isPlain
  | line commandLines commandSeq isNonce =>
    rw [seq]
    refine .line (commandLines.trans ?_) (seq ▸ commandSeq) (isNonce.trans nonce)
    rw [OscSniffer.keepCommandLine, OscSniffer.keepCommandLine, lines, seq]

theorem outcome_parseOsc133 (keeps : Keeps before after) (rest : List Char) :
    Outcome before after (parseOsc133 rest) (meaning133 rest) := by
  unfold parseOsc133
  split
  · exact .plain keeps .promptStart
  · exact .plain keeps .promptEnd
  · exact .plain keeps .outputStart
  · exact .plain keeps (.commandEnd _)
  · rename_i notA notB notC notD
    have silent : meaning133 rest = none := by
      unfold meaning133
      split
      · exact absurd rfl (notA _)
      · exact absurd rfl (notB _)
      · exact absurd rfl (notC _)
      · exact absurd rfl (notD _)
      · rfl
    rw [silent]
    exact .silent keeps

variable {sniffer : OscSniffer}

variable {globalNonce : Option String}

theorem outcome_parseOsc633 {rest : List Char}
    (guarded : ∀ raw last, splitn 3 ';' rest = [['E'], raw, last] →
      sniffer.nonce.or globalNonce ≠ some "") :
    Outcome sniffer (sniffer.parseOsc633 globalNonce rest).1
      (sniffer.parseOsc633 globalNonce rest).2
      (meaning633 (sniffer.nonce.or globalNonce) (splitn 3 ';' rest)) := by
  have few := length_splitn_le 3 ';' rest
  unfold OscSniffer.parseOsc633
  generalize splitn 3 ';' rest = fields at guarded few ⊢
  have same := Keeps.refl sniffer
  unfold meaning633
  split
  · exact .plain same .promptStart
  · exact .plain same .promptEnd
  · exact .plain same .outputStart
  · rename_i code
    have second : (['D'] :: code)[1]? = code.head? := by cases code <;> rfl
    simp only [head?_cons, second]
    exact .plain same (.commandEnd _)
  · rename_i raw last
    have nonEmpty := guarded raw last rfl
    simp only [head?_cons, getElem?_cons_succ, getElem?_cons_zero, Option.map_some]
    by_cases accepted : sniffer.nonce.or globalNonce = some (String.ofList last)
    · have notRefused : ¬ (sniffer.nonce.or globalNonce = none ∨
          some (String.ofList last) ≠ sniffer.nonce.or globalNonce) := by
        rw [accepted]
        simp
      rw [if_neg notRefused]
      have lastNonempty : last ≠ [] := by
        rintro rfl
        exact nonEmpty accepted
      by_cases empty : decodeOsc633Arg raw = ""
      · rw [if_pos empty, if_neg (fun all => all.2.2 empty)]
        exact .silent same
      · rw [if_neg empty, if_pos ⟨accepted, lastNonempty, empty⟩]
        exact .line rfl rfl rfl
    · rw [if_pos (.inr (fun same => accepted same.symm)), if_neg (fun all => accepted all.1)]
      exact .silent ⟨rfl, rfl, rfl⟩
  · rename_i notA notB notC notD notE
    cases fields with
    | nil => exact .silent same
    | cons first others =>
      simp only [head?_cons, getElem?_cons_succ]
      split
      · rename_i isA
        cases isA
        exact absurd rfl (notA _)
      · rename_i isB
        cases isB
        exact absurd rfl (notB _)
      · rename_i isC
        cases isC
        exact absurd rfl (notC _)
      · rename_i isD
        cases isD
        exact absurd rfl (notD _)
      · rename_i isE
        cases isE
        cases others with
        | nil => exact .silent same
        | cons raw more =>
          cases more with
          | nil =>
            simp only [getElem?_cons_zero, getElem?_cons_succ, getElem?_nil,
              Option.map_none]
            -- There is no third field, so either nothing is expected or it is not what comes.
            have refused : sniffer.nonce.or globalNonce = none ∨
                none ≠ sniffer.nonce.or globalNonce := by
              cases sniffer.nonce.or globalNonce with
              | none => exact .inl rfl
              | some expected => exact .inr (Option.some_ne_none expected).symm
            rw [if_pos refused]
            exact .silent ⟨rfl, rfl, rfl⟩
          | cons last more =>
            have noMore : more = [] := eq_nil_of_length_eq_zero (by
              rw [length_cons, length_cons, length_cons] at few
              omega)
            exact absurd (noMore ▸ rfl) (notE raw last)
      · split
        · split_ifs
          · exact .silent ⟨rfl, rfl, rfl⟩
          · exact .silent same
        · exact .silent same
      · exact .silent same

/-- What a payload means by what stands before its first semicolon and behind it. -/
def meaningOf (nonce : Option String) (parts : List Char × List Char) : Option Meaning :=
  if parts.1 = ['1', '3', '3'] then meaning133 parts.2
  else if parts.1 = ['6', '3', '3'] then meaning633 nonce (splitn 3 ';' parts.2)
  else none

variable {payload : List UInt8}

theorem meaning_of_fromUtf8 {nonce : Option String} {text : List Char}
    (fits : payload.length ≤ maxOsc) (decoded : fromUtf8 payload = some text) :
    meaning nonce payload = meaningOf nonce ((splitOnce ';' text).getD (text, [])) := by
  rw [meaning, if_neg (Nat.not_lt.mpr fits), decoded, Option.bind_some]
  cases splitOnce ';' text with
  | none =>
    rw [Option.getD_none, meaningOf]
    split_ifs <;> rfl
  | some parts =>
    obtain ⟨number, rest⟩ := parts
    rw [Option.getD_some, meaningOf]
    dsimp only
    split
    · rename_i is133
      cases is133
      exact (if_pos rfl).symm
    · rename_i is633
      cases is633
      rw [if_neg (by decide), if_pos rfl]
    · rename_i not133 not633
      have other133 : number ≠ ['1', '3', '3'] := by
        rintro rfl
        exact not133 rest rfl
      have other633 : number ≠ ['6', '3', '3'] := by
        rintro rfl
        exact not633 rest rfl
      rw [if_neg other133, if_neg other633]

/-- A payload that tells a command line, in its bytes. -/
theorem payload_of_fields {text raw last : List Char} (decoded : fromUtf8 payload = some text)
    (is633 : ((splitOnce ';' text).getD (text, [])).1 = ['6', '3', '3'])
    (fields : splitn 3 ';' ((splitOnce ';' text).getD (text, [])).2 = [['E'], raw, last]) :
    payload = utf8Bytes (lineBeginning ++ raw ++ ';' :: last) ∧ ';' ∉ raw := by
  cases isSplit : splitOnce ';' text with
  | none =>
    rw [isSplit] at fields
    cases fields
  | some parts =>
    rw [isSplit] at is633 fields
    obtain ⟨number, rest⟩ := parts
    cases is633
    obtain ⟨whole, -⟩ := splitOnce_eq_some_iff.mp isSplit
    obtain ⟨others, -, noSeparator⟩ := eq_of_splitn_three fields
    rw [Option.getD_some] at others
    dsimp only at others
    refine ⟨?_, noSeparator⟩
    rw [fromUtf8_eq_some_iff.mp decoded, whole, others]
    rfl

theorem outcome_finish (fits : sniffer.buf.length ≤ maxOsc)
    (guarded : sniffer.nonce.or globalNonce = some "" →
      ¬ utf8Bytes lineBeginning <+: sniffer.buf) :
    Outcome sniffer (sniffer.finish globalNonce).1 (sniffer.finish globalNonce).2
      (meaning (sniffer.nonce.or globalNonce) sniffer.buf) := by
  have same : Keeps sniffer { sniffer with buf := [] } := ⟨rfl, rfl, rfl⟩
  unfold OscSniffer.finish
  cases decoded : fromUtf8 sniffer.buf with
  | none =>
    rw [meaning, decoded, if_neg (Nat.not_lt.mpr fits)]
    exact .silent same
  | some text =>
    rw [meaning_of_fromUtf8 fits decoded]
    have fields : ∀ raw last, ((splitOnce ';' text).getD (text, [])).1 = ['6', '3', '3'] →
        splitn 3 ';' ((splitOnce ';' text).getD (text, [])).2 = [['E'], raw, last] →
        sniffer.buf = utf8Bytes (lineBeginning ++ raw ++ ';' :: last) ∧ ';' ∉ raw :=
      fun _ _ => payload_of_fields decoded
    dsimp only
    generalize (splitOnce ';' text).getD (text, []) = parts at fields ⊢
    rw [meaningOf]
    by_cases is7 : parts.1 = ['7']
    · rw [if_pos is7, if_neg (by rw [is7]; decide), if_neg (by rw [is7]; decide)]
      split
      · exact .silent ⟨rfl, rfl, rfl⟩
      · exact .silent same
    rw [if_neg is7]
    by_cases is133 : parts.1 = ['1', '3', '3']
    · rw [if_pos is133, if_pos is133]
      exact outcome_parseOsc133 same parts.2
    rw [if_neg is133, if_neg is133]
    by_cases is633 : parts.1 = ['6', '3', '3']
    · rw [if_pos is633, if_pos is633]
      refine Outcome.of_keeps same ?_
      refine outcome_parseOsc633 fun raw last isFields noNonce => ?_
      have isPayload := (fields raw last is633 isFields).1
      refine guarded noNonce ⟨utf8Bytes (raw ++ ';' :: last), ?_⟩
      rw [isPayload, ← utf8Bytes_append, append_assoc]
    rw [if_neg is633, if_neg is633]
    split
    · split
      · split
        · exact .silent ⟨rfl, rfl, rfl⟩
        · exact .silent same
      · split_ifs
        · exact .silent same
        · exact .silent ⟨rfl, rfl, rfl⟩
    · exact .silent same
/-! ### The scanner beside a parser -/

/-- How the scanner stands to the parser: it is where the parser is, but it has given up a sequence
that is too long, and it holds one open that a second escape byte has ended. -/
def Follows (sniffer : OscSniffer) (fed : List UInt8) (parser : Parser) : Prop :=
  match sniffer.scan with
  | .normal =>
    parser = .ground ∨ ∃ payload, parser = .command payload ∧ maxOsc < payload.length
  | .esc =>
    parser = .escape none ∨ ∃ payload, parser = .escape (some payload) ∧ maxOsc < payload.length
  | .osc =>
    parser = .command sniffer.buf ∧ sniffer.buf.length ≤ maxOsc ∧ fed.getLast? ≠ some esc
  | .oscEsc =>
    parser = .escape (if Doubled fed then none else some sniffer.buf) ∧
      sniffer.buf.length ≤ maxOsc ∧ fed.getLast? = some esc

/-- The scanner does with a byte what its meaning for the parser says, and follows it. -/
def Tracks (pane : Pane) (parser : Parser) (byte : UInt8) : Prop :=
  Outcome pane.sniffer (pane.sniffer.feedByte pane.globalNonce byte).1
      (pane.sniffer.feedByte pane.globalNonce byte).2
      ((parser.step byte).2.bind (meaning pane.installed)) ∧
    Follows (pane.sniffer.feedByte pane.globalNonce byte).1 (pane.fed ++ [byte])
      (parser.step byte).1

variable {pane : Pane} {parser : Parser} {byte : UInt8}

theorem tracks_of_eq {next : Parser} {ended : Option (List UInt8)}
    (fed : pane.sniffer.feedByte pane.globalNonce byte = (after, mark))
    (parsed : parser.step byte = (next, ended))
    (outcome : Outcome pane.sniffer after mark (ended.bind (meaning pane.installed)))
    (follows : Follows after (pane.fed ++ [byte]) next) : Tracks pane parser byte := by
  rw [Tracks, fed, parsed]
  exact ⟨outcome, follows⟩

theorem outcome_none (keeps : Keeps sniffer after) (nonce : Option String) :
    Outcome sniffer after none (Option.none.bind (meaning nonce)) :=
  .silent keeps

/-- A sequence that is too long means nothing. -/
theorem outcome_long (keeps : Keeps sniffer after) (nonce : Option String)
    (long : maxOsc < payload.length) :
    Outcome sniffer after none ((some payload).bind (meaning nonce)) := by
  rw [Option.bind_some, meaning, if_pos long]
  exact .silent keeps

theorem keeps_enter (sniffer : OscSniffer) (scan : Scan) : Keeps sniffer (sniffer.enter scan) :=
  ⟨rfl, rfl, rfl⟩

theorem keeps_clear (sniffer : OscSniffer) (scan : Scan) :
    Keeps sniffer (sniffer.clear.enter scan) :=
  ⟨rfl, rfl, rfl⟩

theorem Outcome.enter {meaning : Option Meaning} (outcome : Outcome before after mark meaning)
    (scan : Scan) :
    Outcome before (after.enter scan) mark meaning := by
  cases outcome with
  | silent keeps => exact .silent ⟨keeps.commandLines, keeps.commandSeq, keeps.nonce⟩
  | plain keeps isPlain =>
    exact .plain ⟨keeps.commandLines, keeps.commandSeq, keeps.nonce⟩ isPlain
  | line commandLines commandSeq nonce => exact .line commandLines commandSeq nonce

theorem tracks_normal (scan : pane.sniffer.scan = .normal)
    (stands : parser = .ground ∨ ∃ payload, parser = .command payload ∧ maxOsc < payload.length) :
    Tracks pane parser byte := by
  have fed : pane.sniffer.feedByte pane.globalNonce byte =
      (if byte = esc then pane.sniffer.enter .esc else pane.sniffer, none) := by
    rw [OscSniffer.feedByte, scan]
  by_cases isEsc : byte = esc
  · rw [if_pos isEsc] at fed
    rcases stands with rfl | ⟨payload, rfl, long⟩
    · have parsed : Parser.ground.step byte = (.escape none, none) := by
        rw [Parser.step, if_pos isEsc]
      exact tracks_of_eq fed parsed (outcome_none (keeps_enter _ _) _) (.inl rfl)
    · have parsed : (Parser.command payload).step byte = (.escape (some payload), none) := by
        rw [Parser.step, if_neg (by rw [isEsc]; decide), if_pos isEsc]
      exact tracks_of_eq fed parsed (outcome_none (keeps_enter _ _) _)
        (.inr ⟨payload, rfl, long⟩)
  · rw [if_neg isEsc] at fed
    have follows : ∀ next, (next = .ground ∨ ∃ payload, next = .command payload ∧
        maxOsc < payload.length) → Follows pane.sniffer (pane.fed ++ [byte]) next := by
      intro next stands
      rw [Follows, scan]
      exact stands
    rcases stands with rfl | ⟨payload, rfl, long⟩
    · have parsed : Parser.ground.step byte = (.ground, none) := by
        rw [Parser.step, if_neg isEsc]
      exact tracks_of_eq fed parsed (outcome_none (Keeps.refl _) _) (follows _ (.inl rfl))
    · by_cases isBel : byte = bel
      · have parsed : (Parser.command payload).step byte = (.ground, some payload) := by
          rw [Parser.step, if_pos isBel]
        exact tracks_of_eq fed parsed (outcome_long (Keeps.refl _) _ long)
          (follows _ (.inl rfl))
      by_cases cancels : byte = cancel ∨ byte = substitute
      · have parsed : (Parser.command payload).step byte = (.ground, none) := by
          rw [Parser.step, if_neg isBel, if_neg isEsc, if_pos cancels]
        exact tracks_of_eq fed parsed (outcome_none (Keeps.refl _) _) (follows _ (.inl rfl))
      · have parsed : (Parser.command payload).step byte =
            (.command (payload ++ [byte]), none) := by
          rw [Parser.step, if_neg isBel, if_neg isEsc, if_neg cancels]
        refine tracks_of_eq fed parsed (outcome_none (Keeps.refl _) _)
          (follows _ (.inr ⟨payload ++ [byte], rfl, ?_⟩))
        rw [length_append]
        omega

theorem tracks_esc (scan : pane.sniffer.scan = .esc) (stands : parser = .escape none ∨
      ∃ payload, parser = .escape (some payload) ∧ maxOsc < payload.length) :
    Tracks pane parser byte := by
  obtain ⟨opened, rfl, long⟩ : ∃ opened, parser = .escape opened ∧
      ∀ payload, opened = some payload → maxOsc < payload.length := by
    rcases stands with rfl | ⟨payload, rfl, long⟩
    · exact ⟨none, rfl, fun payload isSome => by cases isSome⟩
    · exact ⟨some payload, rfl, fun other isSome => by cases isSome; exact long⟩
  have fed : pane.sniffer.feedByte pane.globalNonce byte =
      (if byte = bracket then (pane.sniffer.clear.enter .osc, none)
        else if byte = esc then (pane.sniffer, none)
        else (pane.sniffer.enter .normal, none)) := by
    rw [OscSniffer.feedByte, scan]
  by_cases isBracket : byte = bracket
  · have parsed : (Parser.escape opened).step byte = (.command [], none) := by
      rw [Parser.step, if_pos isBracket]
    rw [if_pos isBracket] at fed
    refine tracks_of_eq fed parsed (outcome_none (keeps_clear _ _) _)
      ⟨rfl, Nat.zero_le _, ?_⟩
    rw [getLast?_concat, isBracket]
    decide
  rw [if_neg isBracket] at fed
  by_cases isEsc : byte = esc
  · have parsed : (Parser.escape opened).step byte = (.escape none, none) := by
      rw [Parser.step, if_neg isBracket, if_pos isEsc]
    rw [if_pos isEsc] at fed
    refine tracks_of_eq fed parsed (outcome_none (Keeps.refl _) _) ?_
    rw [Follows, scan]
    exact .inl rfl
  rw [if_neg isEsc] at fed
  by_cases isBackslash : byte = backslash
  · have parsed : (Parser.escape opened).step byte = (.ground, opened) := by
      rw [Parser.step, if_neg isBracket, if_neg isEsc, if_pos isBackslash]
    refine tracks_of_eq fed parsed ?_ (.inl rfl)
    cases opened with
    | none => exact outcome_none (keeps_enter _ _) _
    | some payload => exact outcome_long (keeps_enter _ _) _ (long payload rfl)
  · have parsed : (Parser.escape opened).step byte = (.ground, none) := by
      rw [Parser.step, if_neg isBracket, if_neg isEsc, if_neg isBackslash]
    exact tracks_of_eq fed parsed (outcome_none (keeps_enter _ _) _) (.inl rfl)

/-- A sequence that ends here is not one that tells a command line while an empty nonce is
installed. -/
theorem outcome_terminate (fits : pane.sniffer.buf.length ≤ maxOsc)
    (guarded : ¬ (pane.installed = some "" ∧ utf8Bytes lineBeginning <+: pane.sniffer.buf)) :
    Outcome pane.sniffer (pane.sniffer.terminate pane.globalNonce).1
      (pane.sniffer.terminate pane.globalNonce).2
      ((some pane.sniffer.buf).bind (meaning pane.installed)) := by
  have finished : Outcome pane.sniffer (pane.sniffer.finish pane.globalNonce).1
      (pane.sniffer.finish pane.globalNonce).2 (meaning pane.installed pane.sniffer.buf) :=
    outcome_finish fits fun empty begins => guarded ⟨empty, begins⟩
  exact finished.enter .normal

theorem tracks_osc (scan : pane.sniffer.scan = .osc) (fits : pane.sniffer.buf.length ≤ maxOsc)
    (noEscape : pane.fed.getLast? ≠ some esc) (clear : ¬ pane.Parts (.byte byte)) :
    Tracks pane (.command pane.sniffer.buf) byte := by
  have fed : pane.sniffer.feedByte pane.globalNonce byte =
      (if byte = bel then pane.sniffer.terminate pane.globalNonce
        else if byte = esc then (pane.sniffer.enter .oscEsc, none)
        else if pane.sniffer.buf.length < maxOsc then (pane.sniffer.push byte, none)
        else (pane.sniffer.clear.enter .normal, none)) := by
    rw [OscSniffer.feedByte, scan]
  by_cases isBel : byte = bel
  · have parsed : (Parser.command pane.sniffer.buf).step byte =
        (.ground, some pane.sniffer.buf) := by
      rw [Parser.step, if_pos isBel]
    rw [if_pos isBel] at fed
    refine tracks_of_eq fed parsed (outcome_terminate fits fun empty => clear ?_) (.inl rfl)
    exact .inr (.inr (.inr ⟨.inl ⟨scan, isBel⟩, empty⟩))
  rw [if_neg isBel] at fed
  by_cases isEsc : byte = esc
  · have parsed : (Parser.command pane.sniffer.buf).step byte =
        (.escape (some pane.sniffer.buf), none) := by
      rw [Parser.step, if_neg isBel, if_pos isEsc]
    rw [if_pos isEsc] at fed
    have notDoubled : ¬ Doubled (pane.fed ++ [byte]) := by
      rw [Doubled, dropLast_concat]
      exact fun doubled => noEscape doubled.2
    refine tracks_of_eq fed parsed (outcome_none (keeps_enter _ _) _) ⟨?_, fits, ?_⟩
    · rw [if_neg notDoubled]
      rfl
    · rw [getLast?_concat, isEsc]
  rw [if_neg isEsc] at fed
  have notCancelled : ¬ (byte = cancel ∨ byte = substitute) := fun cancels =>
    clear (.inr (.inr (.inl ⟨scan, cancels⟩)))
  have parsed : (Parser.command pane.sniffer.buf).step byte =
      (.command (pane.sniffer.buf ++ [byte]), none) := by
    rw [Parser.step, if_neg isBel, if_neg isEsc, if_neg notCancelled]
  by_cases room : pane.sniffer.buf.length < maxOsc
  · rw [if_pos room] at fed
    have keeps : Keeps pane.sniffer (pane.sniffer.push byte) := ⟨rfl, rfl, rfl⟩
    refine tracks_of_eq fed parsed (outcome_none keeps _) ?_
    have pushed : (pane.sniffer.push byte).scan = .osc := scan
    rw [Follows, pushed]
    refine ⟨rfl, ?_, ?_⟩
    · show (pane.sniffer.buf ++ [byte]).length ≤ maxOsc
      rw [length_append]
      exact room
    · rw [getLast?_concat]
      exact fun same => isEsc (Option.some.inj same)
  · rw [if_neg room] at fed
    refine tracks_of_eq fed parsed (outcome_none (keeps_clear _ _) _)
      (.inr ⟨_, rfl, ?_⟩)
    rw [length_append, length_singleton]
    omega

theorem tracks_oscEsc (scan : pane.sniffer.scan = .oscEsc) (fits : pane.sniffer.buf.length ≤ maxOsc)
    (escape : pane.fed.getLast? = some esc) (clear : ¬ pane.Parts (.byte byte)) :
    Tracks pane (.escape (if Doubled pane.fed then none else some pane.sniffer.buf)) byte := by
  have fed : pane.sniffer.feedByte pane.globalNonce byte =
      (if byte = backslash then pane.sniffer.terminate pane.globalNonce
        else if byte = esc then (pane.sniffer, none)
        else (pane.sniffer.clear.enter .normal, none)) := by
    rw [OscSniffer.feedByte, scan]
  have notBracket : byte ≠ bracket := fun isBracket => clear (.inl ⟨scan, isBracket⟩)
  by_cases isBackslash : byte = backslash
  · have notDoubled : ¬ Doubled pane.fed := fun doubled =>
      clear (.inr (.inl ⟨scan, isBackslash, doubled⟩))
    rw [if_neg notDoubled]
    have parsed : (Parser.escape (some pane.sniffer.buf)).step byte =
        (.ground, some pane.sniffer.buf) := by
      rw [Parser.step, if_neg notBracket, if_neg (by rw [isBackslash]; decide),
        if_pos isBackslash]
    rw [if_pos isBackslash] at fed
    refine tracks_of_eq fed parsed (outcome_terminate fits fun empty => clear ?_) (.inl rfl)
    exact .inr (.inr (.inr ⟨.inr ⟨scan, isBackslash⟩, empty⟩))
  rw [if_neg isBackslash] at fed
  by_cases isEsc : byte = esc
  · have parsed : (Parser.escape (if Doubled pane.fed then none else some pane.sniffer.buf)).step
        byte = (.escape none, none) := by
      rw [Parser.step, if_neg notBracket, if_pos isEsc]
    rw [if_pos isEsc] at fed
    refine tracks_of_eq fed parsed (outcome_none (Keeps.refl _) _) ?_
    have doubled : Doubled (pane.fed ++ [byte]) := by
      rw [Doubled, getLast?_concat, dropLast_concat, isEsc]
      exact ⟨rfl, escape⟩
    rw [Follows, scan]
    refine ⟨?_, fits, doubled.1⟩
    rw [if_pos doubled]
  · have parsed : (Parser.escape (if Doubled pane.fed then none else some pane.sniffer.buf)).step
        byte = (.ground, none) := by
      rw [Parser.step, if_neg notBracket, if_neg isEsc, if_neg isBackslash]
    rw [if_neg isEsc] at fed
    exact tracks_of_eq fed parsed (outcome_none (keeps_clear _ _) _) (.inl rfl)

theorem tracks_of_follows (follows : Follows pane.sniffer pane.fed parser)
    (clear : ¬ pane.Parts (.byte byte)) :
    Tracks pane parser byte := by
  rw [Follows] at follows
  cases scan : pane.sniffer.scan with
  | normal =>
    rw [scan] at follows
    exact tracks_normal scan follows
  | esc =>
    rw [scan] at follows
    exact tracks_esc scan follows
  | osc =>
    rw [scan] at follows
    obtain ⟨rfl, fits, noEscape⟩ := follows
    exact tracks_osc scan fits noEscape clear
  | oscEsc =>
    rw [scan] at follows
    obtain ⟨rfl, fits, escape⟩ := follows
    exact tracks_oscEsc scan fits escape clear

/-! ### The marks and their texts -/

/-- A mark stands for what was found. -/
inductive Says : ShellMark → Meaning → Prop where
  | plain {mark : ShellMark} {meaning : Meaning} (isPlain : Plain mark meaning) : Says mark meaning
  | commandLine (id : UInt32) (text : String) : Says (.commandLine id) (.commandLine text)

/-- A mark is reported where it was found. -/
def Reports (reported : Nat × ShellMark) (found : Nat × Meaning) : Prop :=
  reported.1 = found.1 ∧ Says reported.2 found.2

def ShellMark.lineId : ShellMark → Option UInt32
  | .commandLine id => some id
  | _ => none

def Meaning.lineText : Meaning → Option String
  | .commandLine text => some text
  | _ => none

/-- The numbers of the command lines that were reported. -/
def lineIds (reported : List (Nat × ShellMark)) : List UInt32 :=
  reported.filterMap fun mark => mark.2.lineId

/-- The command lines that were found. -/
def lineTexts (found : List (Nat × Meaning)) : List String :=
  found.filterMap fun mark => mark.2.lineText

/-- A number leads to the text or to nothing. -/
def OscSniffer.Resolves (sniffer : OscSniffer) (id : UInt32) (text : String) : Prop :=
  (∀ found, sniffer.commandLine id = some found → found = text) ∧
    ∀ entry ∈ sniffer.takeCommandLines.2, entry.1 = id → entry.2 = text

/-- The command lines with the numbers they get. -/
def numbered (texts : List String) : List (UInt32 × String) :=
  texts.mapIdx fun index text => (UInt32.ofNat index, text)

theorem numbered_concat (texts : List String) (text : String) :
    numbered (texts ++ [text]) = numbered texts ++ [(UInt32.ofNat texts.length, text)] :=
  mapIdx_concat

theorem length_numbered (texts : List String) : (numbered texts).length = texts.length :=
  length_mapIdx

/-- What was reported is what was found, and the scanner keeps the last command lines. -/
structure Tells (reported : List (Nat × ShellMark)) (found : List (Nat × Meaning))
    (sniffer : OscSniffer) : Prop where
  reports : List.Forall₂ Reports reported found
  ids : lineIds reported = (numbered (lineTexts found)).map Prod.fst
  commandSeq : sniffer.commandSeq = UInt32.ofNat (lineTexts found).length
  kept : sniffer.commandLines <:+ numbered (lineTexts found)
  few : sniffer.commandLines.length ≤ maxCommandLines

/-- What holds of a scanner and a terminal that were given the same. -/
structure Agrees (pane : Pane) (emulator : Emulator) : Prop where
  follows : Follows pane.sniffer pane.fed emulator.parser
  nonce : emulator.nonce = pane.sniffer.nonce
  globalNonce : emulator.globalNonce = pane.globalNonce
  offset : emulator.offset = pane.fed.length
  tells : Tells pane.reported emulator.found pane.sniffer

theorem agrees_start : Agrees Pane.start Emulator.start where
  follows := .inl rfl
  nonce := rfl
  globalNonce := rfl
  offset := rfl
  tells := ⟨List.Forall₂.nil, rfl, rfl, suffix_refl _, Nat.zero_le _⟩

theorem found_act_byte (emulator : Emulator) (byte : UInt8) :
    (emulator.act (.byte byte)).found = emulator.found ++
      (((emulator.parser.step byte).2.bind
        (meaning (emulator.nonce.or emulator.globalNonce))).map
          (emulator.offset + 1, ·)).toList := by
  rw [Emulator.found, Emulator.act, filterMap_append]
  refine congrArg (emulator.found ++ ·) ?_
  cases (emulator.parser.step byte).2 with
  | none => rfl
  | some payload =>
    dsimp only [Option.map_some, Option.toList_some, Option.bind_some]
    rw [filterMap_cons, filterMap_nil]
    dsimp only [Sequence.meaning]
    cases meaning (emulator.nonce.or emulator.globalNonce) payload <;> rfl

theorem suffix_keepCommandLine {texts : List String} (text : String)
    (commandSeq : sniffer.commandSeq = UInt32.ofNat texts.length)
    (kept : sniffer.commandLines <:+ numbered texts) :
    (sniffer.keepCommandLine text).commandLines <:+ numbered (texts ++ [text]) := by
  have others : (if maxCommandLines ≤ sniffer.commandLines.length then
      sniffer.commandLines.tail else sniffer.commandLines) <:+ numbered texts := by
    split_ifs
    · exact (tail_suffix _).trans kept
    · exact kept
  obtain ⟨older, whole⟩ := others
  refine ⟨older, ?_⟩
  rw [OscSniffer.keepCommandLine, numbered_concat, commandSeq, ← whole, append_assoc]

theorem length_keepCommandLine (text : String) (few : sniffer.commandLines.length ≤ maxCommandLines) :
    (sniffer.keepCommandLine text).commandLines.length ≤ maxCommandLines := by
  rw [OscSniffer.keepCommandLine]
  dsimp only
  rw [length_append, length_singleton]
  split_ifs with full
  · rw [length_tail]
    unfold maxCommandLines at *
    omega
  · omega

theorem lineIds_append (first second : List (Nat × ShellMark)) :
    lineIds (first ++ second) = lineIds first ++ lineIds second :=
  filterMap_append

theorem lineTexts_append (first second : List (Nat × Meaning)) :
    lineTexts (first ++ second) = lineTexts first ++ lineTexts second :=
  filterMap_append

variable {reported : List (Nat × ShellMark)}

theorem Tells.of_outcome {found : List (Nat × Meaning)} {meaning : Option Meaning}
    (tells : Tells reported found before) (outcome : Outcome before after mark meaning)
    (offset : Nat) :
    Tells (reported ++ (mark.map (offset, ·)).toList) (found ++ (meaning.map (offset, ·)).toList)
      after := by
  cases outcome with
  | silent keeps =>
    rw [Option.map_none, Option.map_none, Option.toList_none, Option.toList_none, append_nil,
      append_nil]
    exact ⟨tells.reports, tells.ids, keeps.commandSeq.trans tells.commandSeq,
      keeps.commandLines ▸ tells.kept, keeps.commandLines ▸ tells.few⟩
  | @plain mark meaning keeps isPlain =>
    have sameIds : lineIds (reported ++ [(offset, mark)]) = lineIds reported := by
      rw [lineIds_append]
      cases isPlain <;> exact append_nil _
    have sameTexts : lineTexts (found ++ [(offset, meaning)]) = lineTexts found := by
      rw [lineTexts_append]
      cases isPlain <;> exact append_nil _
    refine ⟨rel_append tells.reports (.cons ⟨rfl, .plain isPlain⟩ .nil), ?_, ?_, ?_, ?_⟩
    · exact sameIds.trans (sameTexts ▸ tells.ids)
    · exact keeps.commandSeq.trans (sameTexts ▸ tells.commandSeq)
    · exact keeps.commandLines ▸ sameTexts ▸ tells.kept
    · exact keeps.commandLines ▸ tells.few
  | @line text commandLines commandSeq nonce =>
    have newId : lineIds (reported ++ [(offset, .commandLine before.commandSeq)]) =
        lineIds reported ++ [before.commandSeq] :=
      lineIds_append _ _
    have newText : lineTexts (found ++ [(offset, .commandLine text)]) =
        lineTexts found ++ [text] :=
      lineTexts_append _ _
    refine ⟨rel_append tells.reports (.cons ⟨rfl, .commandLine _ _⟩ .nil), ?_, ?_, ?_, ?_⟩
    · show lineIds (reported ++ [(offset, .commandLine before.commandSeq)]) =
        (numbered (lineTexts (found ++ [(offset, .commandLine text)]))).map Prod.fst
      rw [newId, newText, numbered_concat, map_append, tells.ids, tells.commandSeq]
      rfl
    · show after.commandSeq =
        UInt32.ofNat (lineTexts (found ++ [(offset, .commandLine text)])).length
      rw [newText, length_append, commandSeq, tells.commandSeq, UInt32.ofNat_add]
      rfl
    · show after.commandLines <:+
        numbered (lineTexts (found ++ [(offset, .commandLine text)]))
      rw [newText, commandLines]
      exact suffix_keepCommandLine text tells.commandSeq tells.kept
    · rw [commandLines]
      exact length_keepCommandLine text tells.few

theorem Outcome.nonce {before after : OscSniffer} {mark : Option ShellMark}
    {meaning : Option Meaning} (outcome : Outcome before after mark meaning) :
    after.nonce = before.nonce := by
  cases outcome with
  | silent keeps => exact keeps.nonce
  | plain keeps isPlain => exact keeps.nonce
  | line commandLines commandSeq nonce => exact nonce

variable {emulator : Emulator}

theorem agrees_byte (agrees : Agrees pane emulator) (clear : ¬ pane.Parts (.byte byte)) :
    Agrees (pane.act (.byte byte)) (emulator.act (.byte byte)) := by
  obtain ⟨outcome, follows⟩ := tracks_of_follows agrees.follows clear
  have found := found_act_byte emulator byte
  rw [agrees.nonce, agrees.globalNonce, agrees.offset] at found
  refine ⟨follows, agrees.nonce.trans outcome.nonce.symm, agrees.globalNonce, ?_, ?_⟩
  · show emulator.offset + 1 = (pane.fed ++ [byte]).length
    rw [length_append, agrees.offset, length_singleton]
  · rw [found]
    exact agrees.tells.of_outcome outcome (pane.fed.length + 1)

theorem agrees_act {action : Action} (agrees : Agrees pane emulator) (clear : ¬ pane.Parts action) :
    Agrees (pane.act action) (emulator.act action) := by
  obtain ⟨follows, nonce, globalNonce, offset, tells⟩ := agrees
  cases action with
  | byte byte => exact agrees_byte ⟨follows, nonce, globalNonce, offset, tells⟩ clear
  | setCommandNonce installed =>
    exact ⟨follows, rfl, globalNonce, offset, tells.reports, tells.ids, tells.commandSeq,
      tells.kept, tells.few⟩
  | setGlobalCommandNonce installed =>
    exact ⟨follows, nonce, rfl, offset, tells⟩
  | takeCommandLines =>
    exact ⟨follows, nonce, globalNonce, offset, tells.reports, tells.ids, tells.commandSeq,
      nil_suffix, Nat.zero_le _⟩

/-! ### Whole runs -/

/-- A scanner and a terminal that are given the same. -/
def together : Machine (Pane × Emulator) Action :=
  ⟨fun state action => some (state.1.act action, state.2.act action)⟩

/-- No step of the run is one where the two part. -/
def Clear (events : List Event) : Prop :=
  together.Along (fun state action => ¬ state.1.Parts action) (Pane.start, Emulator.start)
    (events.flatMap Event.actions)

theorem run_together (pane : Pane) (emulator : Emulator) (actions : List Action) :
    together.run (pane, emulator) actions =
      some (actions.foldl Pane.act pane, emulator.actAll actions) := by
  induction actions generalizing pane emulator with
  | nil => rfl
  | cons action actions inductionHypothesis => exact inductionHypothesis _ _

theorem feedFrom_eq_foldl (globalNonce : Option String) (fed bytes : List UInt8)
    (reported : List (Nat × ShellMark)) (sniffer : OscSniffer) (index : Nat) (base : Nat)
    (position : fed.length = base + index) :
    (bytes.map Action.byte).foldl Pane.act ⟨sniffer, globalNonce, fed, reported⟩ =
      ⟨(sniffer.feedFrom globalNonce index bytes).1, globalNonce, fed ++ bytes,
        reported ++ (sniffer.feedFrom globalNonce index bytes).2.map
          fun event => (base + event.offset, event.mark)⟩ := by
  induction bytes generalizing fed reported sniffer index with
  | nil =>
    simp only [OscSniffer.feedFrom, map_nil, append_nil, foldl_nil]
  | cons byte bytes inductionHypothesis =>
    have next := inductionHypothesis (fed ++ [byte])
      (reported ++ ((sniffer.feedByte globalNonce byte).2.map (fed.length + 1, ·)).toList)
      (sniffer.feedByte globalNonce byte).1 (index + 1) (by
        rw [length_append, length_singleton, position, Nat.add_assoc])
    refine next.trans ?_
    rw [OscSniffer.feedFrom]
    dsimp only
    rw [append_assoc, map_append, append_assoc, position, Nat.add_assoc]
    cases (sniffer.feedByte globalNonce byte).2 <;> rfl

theorem perform_eq_foldl (pane : Pane) (event : Event) :
    pane.perform event = event.actions.foldl Pane.act pane := by
  cases event with
  | feed bytes =>
    exact (feedFrom_eq_foldl pane.globalNonce pane.fed bytes pane.reported pane.sniffer 0
      pane.fed.length rfl).symm
  | setCommandNonce nonce => rfl
  | setGlobalCommandNonce nonce => rfl
  | takeCommandLines => rfl

theorem performAll_eq_foldl (pane : Pane) (events : List Event) :
    pane.performAll events = (events.flatMap Event.actions).foldl Pane.act pane := by
  induction events generalizing pane with
  | nil => rfl
  | cons event events inductionHypothesis =>
    rw [flatMap_cons, foldl_append, ← perform_eq_foldl]
    exact inductionHypothesis _

theorem agrees_of_clear {events : List Event} (clear : Clear events) :
    Agrees (Pane.start.performAll events)
      (Emulator.start.actAll (events.flatMap Event.actions)) := by
  rw [performAll_eq_foldl]
  have kept : ∀ (state : Pane × Emulator) action next, Agrees state.1 state.2 →
      ¬ state.1.Parts action → together.step state action = some next →
      Agrees next.1 next.2 := by
    rintro state action next agrees notParts stepped
    cases stepped
    exact agrees_act agrees notParts
  exact Machine.invariant kept agrees_start clear (run_together _ _ _)

variable {text : String}

/-- A command line is found only in a sequence with the installed nonce in its last field, and it
is what that sequence has. -/
theorem payload_of_meaning {nonce : Option String}
    (means : meaning nonce payload = some (.commandLine text)) :
    ∃ raw last, nonce = some (String.ofList last) ∧ last ≠ [] ∧ ';' ∉ raw ∧
      payload = utf8Bytes (lineBeginning ++ raw ++ ';' :: last) ∧
      text = decodeOsc633Arg raw := by
  have fits : payload.length ≤ maxOsc := by
    by_contra long
    rw [meaning, if_pos (Nat.not_le.mp long)] at means
    cases means
  cases decoded : fromUtf8 payload with
  | none =>
    rw [meaning, if_neg (Nat.not_lt.mpr fits), decoded] at means
    cases means
  | some whole =>
    rw [meaning_of_fromUtf8 fits decoded, meaningOf] at means
    split_ifs at means with is133 is633
    · unfold meaning133 at means
      split at means <;> cases means
    · unfold meaning633 at means
      split at means
      any_goals cases means
      rename_i raw last isFields
      split_ifs at means with accepted
      cases means
      obtain ⟨isPayload, noSeparator⟩ := payload_of_fields decoded is633 isFields
      exact ⟨raw, last, accepted.1, accepted.2.1, noSeparator, isPayload, rfl⟩

/-- A number leads to its own text or to nothing until it is given a second time. -/
theorem Tells.resolves {found : List (Nat × Meaning)} (tells : Tells reported found sniffer)
    {index : Nat} {id : UInt32} (isId : (lineIds reported)[index]? = some id)
    (isText : (lineTexts found)[index]? = some text)
    (recent : (lineTexts found).length ≤ index + 2 ^ 32) : sniffer.Resolves id text := by
  have isNumber : id = UInt32.ofNat index := by
    rw [tells.ids, numbered, getElem?_map, getElem?_mapIdx, isText] at isId
    exact (Option.some.inj isId).symm
  have own : ∀ entry ∈ sniffer.commandLines, entry.1 = id → entry.2 = text := by
    intro entry isEntry same
    obtain ⟨place, within, isPlace⟩ := getElem_of_mem isEntry
    have few := tells.few
    have length := tells.kept.length_le
    rw [length_numbered] at length
    have whole := suffix_iff_eq_drop.mp tells.kept
    have among : (numbered (lineTexts found))[(lineTexts found).length -
        sniffer.commandLines.length + place]? = some entry := by
      rw [← getElem?_drop, ← length_numbered, ← whole, getElem?_eq_getElem within,
        isPlace]
    generalize position : (lineTexts found).length - sniffer.commandLines.length + place = spot
      at among
    rw [numbered, getElem?_mapIdx] at among
    obtain ⟨other, isOther, isEntry⟩ := Option.map_eq_some_iff.mp among
    subst isEntry
    have isIndex := (List.getElem?_eq_some_iff.mp isText).1
    have isSpot := (List.getElem?_eq_some_iff.mp isOther).1
    have numbers : spot % 2 ^ 32 = index % 2 ^ 32 := by
      have := congrArg UInt32.toNat (same.trans isNumber)
      simpa using this
    have samePlace : spot = index := by
      unfold maxCommandLines at few
      omega
    rw [samePlace, isText] at isOther
    exact (Option.some.inj isOther).symm
  refine ⟨fun kept isKept => ?_, own⟩
  obtain ⟨entry, isFound, rfl⟩ := Option.map_eq_some_iff.mp isKept
  exact own entry (mem_of_find?_eq_some isFound) (by simpa using find?_some isFound)

instance (events : List Event) : Decidable (Clear events) :=
  inferInstanceAs (Decidable (together.Along _ _ _))

/-- In a run without a step where the two part, the marks that are reported are those a terminal
finds, where it finds them; a command line comes with the installed nonce, which is not empty;
and its number leads to it or to nothing while it is among the last 2^32. -/
theorem marks_reported {events : List Event} (clear : Clear events) :
    let pane := Pane.start.performAll events
    let emulator := Emulator.start.actAll (events.flatMap Event.actions)
    List.Forall₂ Reports pane.reported emulator.found ∧
      (∀ sequence ∈ emulator.sequences, ∀ text, sequence.meaning = some (.commandLine text) →
        ∃ raw last, sequence.nonce = some (String.ofList last) ∧ last ≠ [] ∧ ';' ∉ raw ∧
          sequence.payload = utf8Bytes (lineBeginning ++ raw ++ ';' :: last) ∧
          text = decodeOsc633Arg raw) ∧
      ∀ index id text, (lineIds pane.reported)[index]? = some id →
        (lineTexts emulator.found)[index]? = some text →
        (lineTexts emulator.found).length ≤ index + 2 ^ 32 → pane.sniffer.Resolves id text := by
  have agrees := agrees_of_clear clear
  refine ⟨agrees.tells.reports, fun sequence _ text means => payload_of_meaning means, ?_⟩
  intro index id text isId isText recent
  exact agrees.tells.resolves isId isText recent

/-- A prompt and a command line that is cut between two chunks. -/
def cutLine : List Event :=
  [.setCommandNonce (some "k"),
    .feed [0x1b, 0x5d, 0x31, 0x33, 0x33, 0x3b, 0x42, 0x07, 0x1b, 0x5d, 0x36, 0x33, 0x33, 0x3b,
      0x45],
    .feed [0x3b, 0x6c, 0x73, 0x3b, 0x6b, 0x1b, 0x5c, 0x0d]]

theorem marks_reported_cutLine :
    (Pane.start.performAll cutLine).reported = [(8, .promptEnd), (22, .commandLine 0)] ∧
      List.Forall₂ Reports (Pane.start.performAll cutLine).reported
        (Emulator.start.actAll (cutLine.flatMap Event.actions)).found ∧
      (Pane.start.performAll cutLine).sniffer.Resolves 0 "ls" := by
  have clear : Clear cutLine := by decide +kernel
  have reported := marks_reported clear
  refine ⟨by decide +kernel, reported.1, reported.2.2 0 0 "ls" ?_ ?_ ?_⟩ <;> decide +kernel

/-- A title that is never terminated, and a prompt behind it. -/
def abortedTitle : List Event :=
  [.feed [0x1b, 0x5d, 0x30, 0x3b, 0x78, 0x1b, 0x5d, 0x31, 0x33, 0x33, 0x3b, 0x41, 0x07]]

theorem marks_missed_abortedTitle :
    (Pane.start.performAll abortedTitle).reported = [] ∧
      (Emulator.start.actAll (abortedTitle.flatMap Event.actions)).found =
        [(13, .promptStart)] ∧
      ¬ List.Forall₂ Reports (Pane.start.performAll abortedTitle).reported
        (Emulator.start.actAll (abortedTitle.flatMap Event.actions)).found := by
  have reported : (Pane.start.performAll abortedTitle).reported = [] := by decide +kernel
  have found : (Emulator.start.actAll (abortedTitle.flatMap Event.actions)).found =
      [(13, .promptStart)] := by decide +kernel
  rw [reported, found]
  refine ⟨rfl, rfl, fun all => ?_⟩
  cases all

end Oryxis.Terminal.Osc

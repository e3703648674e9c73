/-
This file is what becomes of typed input on the wire. The escape byte is doubled, every
line end is written as one carriage return and line feed, and a far side that reads it by
the rules of the network virtual terminal gets the input with its line ends normalised.

The encoder looks one byte ahead and remembers nothing, so input that is cut between a
carriage return and a line feed submits two lines; cut anywhere else, it is encoded as if
it had come in one piece.
-/

import Oryxis.Telnet.Negotiation

namespace Oryxis.Telnet

open List

/-! ### What should hold -/

/-- The escape byte comes in pairs. -/
def doubled : List UInt8 → Bool
  | [] => true
  | [byte] => byte ≠ iac
  | byte :: next :: rest => if byte = iac then next = iac && doubled rest else doubled (next :: rest)

/-- Every carriage return is followed by a line feed. -/
def EndsLines (wire : List UInt8) : Prop :=
  ∀ before after, wire = before ++ carriageReturn :: after → after.head? = some lineFeed

/-- The network virtual terminal: two escape bytes are one, a carriage return with a line feed ends
a line, and one with a padding is itself. -/
def decodeNvt : List UInt8 → List UInt8
  | [] => []
  | [byte] => [byte]
  | byte :: next :: rest =>
    if byte = iac ∧ next = iac then iac :: decodeNvt rest
    else if byte = carriageReturn ∧ next = lineFeed then lineFeed :: decodeNvt rest
    else if byte = carriageReturn ∧ next = 0 then carriageReturn :: decodeNvt rest
    else byte :: decodeNvt (next :: rest)

/-- Input with a line feed for each of its line ends; a line feed behind a carriage return ends no
line of its own. -/
def normalised (behindReturn : Bool) : List UInt8 → List UInt8
  | [] => []
  | byte :: rest =>
    if byte = lineFeed ∧ behindReturn then normalised false rest
    else (if byte = carriageReturn then lineFeed else byte) :: normalised (byte = carriageReturn) rest

/-- Input that comes in two pieces is encoded as in one, and what is written of it is read as the
input with its line ends normalised. -/
structure EncodesApart (first second : List UInt8) : Prop where
  apart : encodeInput (first ++ second) = encodeInput first ++ encodeInput second
  doubled : doubled (encodeInput (first ++ second)) = true
  endsLines : EndsLines (encodeInput (first ++ second))
  decodes : decodeNvt (encodeInput (first ++ second)) = normalised false (first ++ second)

/-! ### What is written -/

theorem encodeInput_escape (rest : List UInt8) :
    encodeInput (iac :: rest) = [iac, iac] ++ encodeInput rest := by
  cases rest <;> exact if_pos rfl

theorem encodeInput_pair (rest : List UInt8) :
    encodeInput (carriageReturn :: lineFeed :: rest) =
      [carriageReturn, lineFeed] ++ encodeInput rest := by
  have notIac : carriageReturn ≠ iac := by decide
  exact (if_neg notIac).trans ((if_pos rfl).trans (if_pos rfl))

variable {rest : List UInt8}

theorem encodeInput_return (notFeed : rest.head? ≠ some lineFeed) :
    encodeInput (carriageReturn :: rest) = [carriageReturn, lineFeed] ++ encodeInput rest := by
  have notIac : carriageReturn ≠ iac := by decide
  cases rest with
  | nil => exact (if_neg notIac).trans (if_pos rfl)
  | cons next others =>
    have plain : next ≠ lineFeed := fun feeds => notFeed (congrArg some feeds)
    exact (if_neg notIac).trans ((if_pos rfl).trans (if_neg plain))

theorem encodeInput_feed (rest : List UInt8) :
    encodeInput (lineFeed :: rest) = [carriageReturn, lineFeed] ++ encodeInput rest := by
  have notIac : lineFeed ≠ iac := by decide
  have notReturn : lineFeed ≠ carriageReturn := by decide
  cases rest <;> exact (if_neg notIac).trans ((if_neg notReturn).trans (if_pos rfl))

variable {byte : UInt8}

theorem encodeInput_plain (notIac : byte ≠ iac) (notReturn : byte ≠ carriageReturn)
    (notFeed : byte ≠ lineFeed) (rest : List UInt8) :
    encodeInput (byte :: rest) = [byte] ++ encodeInput rest := by
  cases rest <;> exact (if_neg notIac).trans ((if_neg notReturn).trans (if_neg notFeed))

/-- Input is empty, or it begins with what is encoded as one. -/
theorem input_induction {motive : List UInt8 → Prop} (empty : motive [])
    (escape : ∀ rest, motive rest → motive (iac :: rest))
    (pair : ∀ rest, motive rest → motive (carriageReturn :: lineFeed :: rest))
    (returns : ∀ rest, rest.head? ≠ some lineFeed → motive rest → motive (carriageReturn :: rest))
    (feed : ∀ rest, motive rest → motive (lineFeed :: rest))
    (plain : ∀ byte rest, byte ≠ iac → byte ≠ carriageReturn → byte ≠ lineFeed → motive rest →
      motive (byte :: rest)) (data : List UInt8) : motive data := by
  induction length : data.length using Nat.strongRecOn generalizing data with
  | ind n shorter =>
    subst length
    cases data with
    | nil => exact empty
    | cons byte rest =>
      have here := shorter rest.length (Nat.lt_succ_self _) rest rfl
      by_cases isIac : byte = iac
      · exact isIac ▸ escape rest here
      by_cases isReturn : byte = carriageReturn
      · subst isReturn
        by_cases feeds : rest.head? = some lineFeed
        · obtain ⟨others, rfl⟩ := head?_eq_some_iff.mp feeds
          exact pair others (shorter others.length
            (Nat.lt_trans (Nat.lt_succ_self _) (Nat.lt_succ_self _)) others rfl)
        · exact returns rest feeds here
      by_cases isFeed : byte = lineFeed
      · exact isFeed ▸ feed rest here
      · exact plain byte rest isIac isReturn isFeed here

theorem doubled_cons (plain : byte ≠ iac) (rest : List UInt8) :
    Telnet.doubled (byte :: rest) = Telnet.doubled rest := by
  cases rest with
  | nil => exact decide_eq_true plain
  | cons next others => simp only [Telnet.doubled, if_neg plain]

theorem doubled_newLine (rest : List UInt8) :
    Telnet.doubled (carriageReturn :: lineFeed :: rest) = Telnet.doubled rest := by
  rw [doubled_cons (by decide), doubled_cons (by decide)]

theorem doubled_encodeInput (data : List UInt8) : Telnet.doubled (encodeInput data) = true := by
  induction data using input_induction with
  | empty => rfl
  | escape rest inductionHypothesis =>
    rw [encodeInput_escape]
    show (decide (iac = iac) && Telnet.doubled (encodeInput rest)) = true
    rw [inductionHypothesis]
    rfl
  | pair rest inductionHypothesis =>
    rw [encodeInput_pair]
    exact (doubled_newLine _).trans inductionHypothesis
  | returns rest notFeed inductionHypothesis =>
    rw [encodeInput_return notFeed]
    exact (doubled_newLine _).trans inductionHypothesis
  | feed rest inductionHypothesis =>
    rw [encodeInput_feed]
    exact (doubled_newLine _).trans inductionHypothesis
  | plain byte rest notIac notReturn notFeed inductionHypothesis =>
    rw [encodeInput_plain notIac notReturn notFeed]
    exact (doubled_cons notIac _).trans inductionHypothesis

theorem endsLines_cons (ends : EndsLines rest)
    (here : byte = carriageReturn → rest.head? = some lineFeed) : EndsLines (byte :: rest) := by
  intro before after cut
  cases before with
  | nil =>
    cases cut
    exact here rfl
  | cons first others =>
    cases cut
    exact ends others after rfl

theorem endsLines_newLine (ends : EndsLines rest) :
    EndsLines (carriageReturn :: lineFeed :: rest) :=
  endsLines_cons (endsLines_cons ends fun same => by cases same) fun _ => rfl

theorem endsLines_encodeInput (data : List UInt8) : EndsLines (encodeInput data) := by
  induction data using input_induction with
  | empty => exact fun before after cut => by cases before <;> cases cut
  | escape rest inductionHypothesis =>
    rw [encodeInput_escape]
    exact endsLines_cons (endsLines_cons inductionHypothesis fun same => by cases same)
      fun same => by cases same
  | pair rest inductionHypothesis =>
    rw [encodeInput_pair]
    exact endsLines_newLine inductionHypothesis
  | returns rest notFeed inductionHypothesis =>
    rw [encodeInput_return notFeed]
    exact endsLines_newLine inductionHypothesis
  | feed rest inductionHypothesis =>
    rw [encodeInput_feed]
    exact endsLines_newLine inductionHypothesis
  | plain byte rest notIac notReturn notFeed inductionHypothesis =>
    rw [encodeInput_plain notIac notReturn notFeed]
    exact endsLines_cons inductionHypothesis fun same => absurd same notReturn

/-! ### What is read -/

theorem decodeNvt_cons (notIac : byte ≠ iac) (notReturn : byte ≠ carriageReturn) (rest : List UInt8) : decodeNvt (byte :: rest) = byte :: decodeNvt rest := by
  cases rest with
  | nil => rfl
  | cons next others =>
    exact (if_neg fun escapes => notIac escapes.1).trans
      ((if_neg fun ends => notReturn ends.1).trans (if_neg fun pads => notReturn pads.1))

theorem decodeNvt_newLine (rest : List UInt8) :
    decodeNvt (carriageReturn :: lineFeed :: rest) = lineFeed :: decodeNvt rest := by
  have notIac : carriageReturn ≠ iac := by decide
  exact (if_neg fun escapes => notIac escapes.1).trans (if_pos ⟨rfl, rfl⟩)

/-- Only a line feed is read otherwise behind a carriage return. -/
theorem normalised_cons (notFeed : byte ≠ lineFeed) (behindReturn : Bool) (rest : List UInt8) :
    normalised behindReturn (byte :: rest) =
      (if byte = carriageReturn then lineFeed else byte) ::
        normalised (byte = carriageReturn) rest :=
  if_neg fun feeds => notFeed feeds.1

theorem decodeNvt_escape (rest : List UInt8) :
    decodeNvt (iac :: iac :: rest) = iac :: decodeNvt rest := if_pos ⟨rfl, rfl⟩

/-- Behind a carriage return, input that does not begin with a line feed is read as any other. -/
theorem normalised_of_head (notFeed : rest.head? ≠ some lineFeed) (behindReturn : Bool) :
    normalised behindReturn rest = normalised false rest := by
  cases rest with
  | nil => rfl
  | cons next others =>
    have plain : next ≠ lineFeed := fun feeds => notFeed (congrArg some feeds)
    rw [normalised_cons plain, normalised_cons plain]

theorem decodeNvt_encodeInput (data : List UInt8) :
    decodeNvt (encodeInput data) = normalised false data := by
  induction data using input_induction with
  | empty => rfl
  | escape rest inductionHypothesis =>
    rw [encodeInput_escape, normalised_cons (by decide), if_neg (by decide),
      decide_eq_false (by decide), ← inductionHypothesis]
    exact decodeNvt_escape _
  | pair rest inductionHypothesis =>
    rw [encodeInput_pair, normalised_cons (by decide)]
    show decodeNvt (carriageReturn :: lineFeed :: encodeInput rest) = _
    rw [decodeNvt_newLine, inductionHypothesis]
    rfl
  | returns rest notFeed inductionHypothesis =>
    rw [encodeInput_return notFeed, normalised_cons (by decide)]
    show decodeNvt (carriageReturn :: lineFeed :: encodeInput rest) = _
    rw [decodeNvt_newLine, inductionHypothesis, ← normalised_of_head notFeed true]
    rfl
  | feed rest inductionHypothesis =>
    rw [encodeInput_feed]
    show decodeNvt (carriageReturn :: lineFeed :: encodeInput rest) = lineFeed :: _
    rw [decodeNvt_newLine, inductionHypothesis]
    rfl
  | plain byte rest notIac notReturn notFeed inductionHypothesis =>
    rw [encodeInput_plain notIac notReturn notFeed, singleton_append,
      decodeNvt_cons notIac notReturn, inductionHypothesis, normalised_cons notFeed,
      if_neg notReturn, decide_eq_false notReturn]

/-! ### Input in two pieces -/

/-- The cut goes between a carriage return and a line feed. -/
def CutsLineEnd (first second : List UInt8) : Prop :=
  first.getLast? = some carriageReturn ∧ second.head? = some lineFeed

theorem cutsLineEnd_cons {second : List UInt8} (earlier : rest = [] → byte ≠ carriageReturn) :
    CutsLineEnd (byte :: rest) second ↔ CutsLineEnd rest second := by
  cases rest with
  | nil =>
    refine iff_of_false (fun cuts => earlier rfl ?_) (fun cuts => by cases cuts.1)
    exact Option.some.inj cuts.1
  | cons next others => rw [CutsLineEnd, getLast?_cons_cons, CutsLineEnd]

/-- Where the encoding of the rest is found behind the same bytes, it is the rest that tells. -/
theorem append_encodeInput_iff {written : List UInt8} {second whole : List UInt8}
    (isWhole : whole = written ++ encodeInput (rest ++ second)) :
    whole = (written ++ encodeInput rest) ++ encodeInput second ↔
      encodeInput (rest ++ second) = encodeInput rest ++ encodeInput second := by
  rw [isWhole, append_assoc, append_cancel_left_eq]

theorem encodeInput_append_iff (first second : List UInt8) :
    encodeInput (first ++ second) = encodeInput first ++ encodeInput second ↔
      ¬ CutsLineEnd first second := by
  induction first using input_induction with
  | empty => exact iff_of_true rfl fun cuts => by cases cuts.1
  | escape rest inductionHypothesis =>
    rw [cutsLineEnd_cons fun _ => by decide, ← inductionHypothesis, encodeInput_escape]
    exact append_encodeInput_iff (encodeInput_escape _)
  | pair rest inductionHypothesis =>
    have within : CutsLineEnd (carriageReturn :: lineFeed :: rest) second ↔
        CutsLineEnd rest second :=
      (cutsLineEnd_cons fun isEmpty => by cases isEmpty).trans
        (cutsLineEnd_cons fun _ => by decide)
    rw [within, ← inductionHypothesis, encodeInput_pair]
    exact append_encodeInput_iff (encodeInput_pair _)
  | returns rest notFeed inductionHypothesis =>
    rw [encodeInput_return notFeed]
    cases rest with
    | nil =>
      rw [singleton_append]
      by_cases feeds : second.head? = some lineFeed
      · refine iff_of_false (fun same => ?_) fun apart => apart ⟨rfl, feeds⟩
        obtain ⟨others, rfl⟩ := head?_eq_some_iff.mp feeds
        rw [encodeInput_pair, encodeInput_feed, append_assoc, append_cancel_left_eq] at same
        have lengths := congrArg List.length same
        simp only [length_append, length_cons, length_nil] at lengths
        omega
      · exact iff_of_true (encodeInput_return feeds) fun cuts => feeds cuts.2
    | cons next others =>
      rw [cutsLineEnd_cons fun isEmpty => (by cases isEmpty), ← inductionHypothesis]
      exact append_encodeInput_iff (encodeInput_return notFeed)
  | feed rest inductionHypothesis =>
    rw [cutsLineEnd_cons fun _ => by decide, ← inductionHypothesis, encodeInput_feed]
    exact append_encodeInput_iff (encodeInput_feed _)
  | plain byte rest notIac notReturn notFeed inductionHypothesis =>
    rw [cutsLineEnd_cons fun _ => notReturn, ← inductionHypothesis,
      encodeInput_plain notIac notReturn notFeed]
    exact append_encodeInput_iff (encodeInput_plain notIac notReturn notFeed _)

/-- Input is encoded the same in two pieces, and read as it should be, unless the cut goes between a
carriage return and a line feed. -/
theorem encodesApart_iff (first second : List UInt8) :
    EncodesApart first second ↔ ¬ CutsLineEnd first second := by
  rw [← encodeInput_append_iff]
  constructor
  · exact fun encodes => encodes.apart
  · intro apart
    exact ⟨apart, doubled_encodeInput _, endsLines_encodeInput _, decodeNvt_encodeInput _⟩

/-- A line end that comes in two pieces is written twice. -/
theorem not_encodesApart_splitLineEnd :
    ¬ ∀ first second : List UInt8, EncodesApart first second := by
  intro always
  have lengths := congrArg List.length (always [carriageReturn] [lineFeed]).apart
  revert lengths
  decide

end Oryxis.Telnet

/-
This file is the Q method, by which two parties agree over two FIFO channels whether
something is on: a request that crosses another is an answer to it, and a change of mind
waits for the answer under way. A link is what one party sees of it. Its dues bound what
is still sent if nobody asks for anything more; a request adds at most two to what was
sent and is due, hearing a message adds nothing, and a link without messages is settled.
-/

import Mathlib.Tactic.TypeStar

namespace Oryxis.Library

/-- What one party holds: off, on, or a request under way, with the opposite one behind it. -/
inductive QState where
  | no
  | yes
  | wantNo
  | wantNoOpposite
  | wantYes
  | wantYesOpposite
  deriving DecidableEq, Repr

namespace QState

/-- The state after a message, and the message that answers it. -/
def hear (accepts : Bool) : QState → Bool → QState × Option Bool
  | .no, true => if accepts then (.yes, some true) else (.no, some false)
  | .yes, true => (.yes, none)
  | .wantNo, true => (.no, none)
  | .wantNoOpposite, true => (.yes, none)
  | .wantYes, true => (.yes, none)
  | .wantYesOpposite, true => (.wantNo, some false)
  | .no, false => (.no, none)
  | .yes, false => (.no, some false)
  | .wantNo, false => (.no, none)
  | .wantNoOpposite, false => (.wantYes, some true)
  | .wantYes, false | .wantYesOpposite, false => (.no, none)

/-- The state after a request of the party's own, and the message that makes it. -/
def ask : QState → Bool → QState × Option Bool
  | .no, true => (.wantYes, some true)
  | .wantNo, true => (.wantNoOpposite, none)
  | .wantYesOpposite, true => (.wantYes, none)
  | .yes, false => (.wantNo, some false)
  | .wantNoOpposite, false => (.wantNo, none)
  | .wantYes, false => (.wantYesOpposite, none)
  | state, _ => (state, none)

def awaits : QState → Bool
  | .no | .yes => false
  | .wantNo | .wantNoOpposite | .wantYes | .wantYesOpposite => true

/-- The settled state a message tells of. -/
def told (on : Bool) : QState := if on then .yes else .no

/-- What the party's latest message asked for, where it awaits the answer. -/
def wants : QState → Option Bool
  | .no | .yes => none
  | .wantNo | .wantNoOpposite => some false
  | .wantYes | .wantYesOpposite => some true

def hasOpposite : QState → Bool
  | .wantNoOpposite | .wantYesOpposite => true
  | .no | .yes | .wantNo | .wantYes => false

end QState

/-- What one party sees: its state and the other's, and the messages to it and from it. -/
structure Link where
  own : QState
  far : QState
  incoming : List Bool
  outgoing : List Bool

/-- What was owed before covers what is owed after it, and what was sent. -/
def Covers (before after : Option Nat) (sent : Nat) : Prop :=
  ∀ owed ∈ before, ∃ left ∈ after, left + sent ≤ owed

instance (before after : Option Nat) (sent : Nat) : Decidable (Covers before after sent) :=
  inferInstanceAs (Decidable (∀ owed ∈ before, ∃ left ∈ after, left + sent ≤ owed))

namespace Link

/-- The link as the other party sees it. -/
def swap (link : Link) : Link := ⟨link.far, link.own, link.outgoing, link.incoming⟩

def hear (link : Link) (accepts on : Bool) (rest : List Bool) : Link :=
  { link with
    own := (link.own.hear accepts on).1
    incoming := rest
    outgoing := link.outgoing ++ (link.own.hear accepts on).2.toList }

def ask (link : Link) (on : Bool) : Link :=
  { link with
    own := (link.own.ask on).1
    outgoing := link.outgoing ++ (link.own.ask on).2.toList }

/-- What is still sent for messages of one party that no message comes towards: an unanswered
request costs its answer, and a change of mind behind it a request and an answer. -/
def duesOf (sender hearer : QState) : List Bool → Option Nat
  | [on] =>
    if sender = .told on then
      match hearer.wants with
      | none => none
      | some wanted =>
        if wanted = false ∧ on = true then none
        else some (if hearer.hasOpposite ∧ wanted = on then 2 else 0)
    else if sender.wants = some on ∧ hearer = .told !on then
      some (if sender.hasOpposite then 3 else 1)
    else none
  | [first, on] =>
    if sender.wants = some on ∧ first ≠ on ∧ hearer.awaits ∧
        (first = true → hearer.wants = some true) then
      some (if sender.hasOpposite then 3 else 1)
    else none
  | _ => none

/-- What is still sent on a link where nobody asks for more; `none` where the states and the
messages do not go together. -/
def dues (link : Link) : Option Nat :=
  match link.incoming, link.outgoing with
  | [], [] => if link.own = link.far ∧ link.own.awaits = false then some 0 else none
  | [], outgoing => duesOf link.own link.far outgoing
  | incoming, [] => duesOf link.far link.own incoming
  | [theirs], [ours] =>
    -- Two requests that cross answer each other.
    if theirs = ours ∧ link.own.wants = some ours ∧ link.far.wants = some theirs then
      some (if link.own.hasOpposite ∨ link.far.hasOpposite then 2 else 0)
    else none
  | _, _ => none

/-! ### What a step owes -/

theorem dues_swap (link : Link) : link.swap.dues = link.dues := by
  obtain ⟨own, far, incoming, outgoing⟩ := link
  rcases incoming with _ | ⟨theirs, _ | ⟨theirSecond, theirRest⟩⟩ <;>
    rcases outgoing with _ | ⟨ours, _ | ⟨ourSecond, ourRest⟩⟩ <;>
    try rfl
  · simp only [dues, swap]
    cases own <;> cases far <;> rfl
  · simp only [dues, swap]
    cases own <;> cases far <;> cases ours <;> cases theirs <;> rfl

variable {link : Link} {owed : Nat}

/-- The messages of a link whose dues are defined: none, one or two of one party, or one of each. -/
theorem messages_of_dues (sound : link.dues = some owed) :
    (link.incoming = [] ∧ link.outgoing = []) ∨
      (∃ on, link.incoming = [on] ∧ link.outgoing = []) ∨
      (∃ on, link.incoming = [] ∧ link.outgoing = [on]) ∨
      (∃ first on, link.incoming = [first, on] ∧ link.outgoing = []) ∨
      (∃ first on, link.incoming = [] ∧ link.outgoing = [first, on]) ∨
      (∃ theirs ours, link.incoming = [theirs] ∧ link.outgoing = [ours]) := by
  obtain ⟨own, far, incoming, outgoing⟩ := link
  rcases incoming with _ | ⟨theirs, _ | ⟨theirSecond, _ | ⟨theirThird, theirRest⟩⟩⟩ <;>
    rcases outgoing with _ | ⟨ours, _ | ⟨ourSecond, _ | ⟨ourThird, ourRest⟩⟩⟩ <;>
    simp only [dues, duesOf, reduceCtorEq] at sound <;>
    simp

theorem dues_hear {on : Bool} {rest : List Bool} (sound : link.dues = some owed)
    (next : link.incoming = on :: rest) (accepts : Bool) :
    ∃ left, (link.hear accepts on rest).dues = some left ∧
      left + (link.own.hear accepts on).2.toList.length ≤ owed := by
  have covered : Covers link.dues (link.hear accepts on rest).dues
      (link.own.hear accepts on).2.toList.length := by
    rcases messages_of_dues sound with ⟨none, _⟩ | ⟨heard, only, silent⟩ | ⟨_, none, _⟩ |
      ⟨heard, second, both, silent⟩ | ⟨_, _, none, _⟩ | ⟨theirs, ours, only, crossing⟩
    · rw [next] at none; cases none
    · obtain ⟨own, far, incoming, outgoing⟩ := link
      cases only; cases silent; cases next
      cases own <;> cases far <;> cases on <;> cases accepts <;> decide
    · rw [next] at none; cases none
    · obtain ⟨own, far, incoming, outgoing⟩ := link
      cases both; cases silent; cases next
      cases own <;> cases far <;> cases on <;> cases second <;> cases accepts <;> decide
    · rw [next] at none; cases none
    · obtain ⟨own, far, incoming, outgoing⟩ := link
      cases only; cases crossing; cases next
      cases own <;> cases far <;> cases on <;> cases ours <;> cases accepts <;> decide
  exact covered owed sound

theorem dues_ask (sound : link.dues = some owed) (on : Bool) :
    ∃ left, (link.ask on).dues = some left ∧
      left + (link.own.ask on).2.toList.length ≤ owed + 2 := by
  have covered : Covers (link.dues.map (· + 2)) (link.ask on).dues
      (link.own.ask on).2.toList.length := by
    rcases messages_of_dues sound with ⟨silentIn, silent⟩ | ⟨heard, only, silent⟩ |
      ⟨said, silent, only⟩ | ⟨heard, second, both, silent⟩ | ⟨said, second, silent, both⟩ |
      ⟨theirs, ours, only, crossing⟩ <;>
      obtain ⟨own, far, incoming, outgoing⟩ := link
    · cases silentIn; cases silent
      cases own <;> cases far <;> cases on <;> decide
    · cases only; cases silent
      cases own <;> cases far <;> cases on <;> cases heard <;> decide
    · cases only; cases silent
      cases own <;> cases far <;> cases on <;> cases said <;> decide
    · cases both; cases silent
      cases own <;> cases far <;> cases on <;> cases heard <;> cases second <;> decide
    · cases both; cases silent
      cases own <;> cases far <;> cases on <;> cases said <;> cases second <;> decide
    · cases only; cases crossing
      cases own <;> cases far <;> cases on <;> cases theirs <;> cases ours <;> decide
  exact covered (owed + 2) (by rw [sound]; rfl)

/-- A link without messages whose dues are defined is settled. -/
theorem settled_of_dues (sound : link.dues = some owed) (heardAll : link.incoming = [])
    (saidAll : link.outgoing = []) :
    link.own = link.far ∧ link.own.awaits = false := by
  obtain ⟨own, far, incoming, outgoing⟩ := link
  cases heardAll; cases saidAll
  have silent : (if own = far ∧ own.awaits = false then some 0 else none) = some owed := sound
  split at silent
  case isTrue settled => exact settled
  case isFalse => cases silent

end Link

end Oryxis.Library

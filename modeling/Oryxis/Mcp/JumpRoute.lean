/-
This file is the route of a host as its diallers use it.

A walk only adds hosts that it had not entered, each once, so no host is on the route twice and the
target is not on it. Where no host sits behind itself, what a walk has entered and not yet added is
what it is behind of: a hop that was entered before is on the route already, and every hop of a host
is added before the host is.
-/

import Mathlib.Data.List.Nodup
import Oryxis.Mcp.DialPlan

namespace Oryxis.Routes

open Relation List

/-! ### What a walk adds -/

structure Adds (walked after : Walked) (new : List Uuid) : Prop where
  out : after.out = walked.out ++ new
  visited : ∀ host, host ∈ after.visited ↔ host ∈ walked.visited ∨ host ∈ new
  nodup : new.Nodup
  fresh : ∀ host ∈ new, host ∉ walked.visited

section Adds

variable {walked middle after : Walked} {new more : List Uuid}

theorem Adds.refl (walked : Walked) : Adds walked walked [] :=
  ⟨(append_nil _).symm, fun _ => (or_iff_left not_mem_nil).symm, nodup_nil,
    forall_mem_nil _⟩

theorem Adds.trans (first : Adds walked middle new) (second : Adds middle after more) :
    Adds walked after (new ++ more) where
  out := by rw [second.out, first.out, append_assoc]
  visited host := by rw [second.visited, first.visited, mem_append, or_assoc]
  nodup := by
    refine nodup_append.mpr ⟨first.nodup, second.nodup, fun host early other late same => ?_⟩
    exact second.fresh other late ((first.visited other).mpr (.inr (same ▸ early)))
  fresh host member entered := by
    rcases mem_append.mp member with early | late
    · exact first.fresh host early entered
    · exact second.fresh host late ((first.visited host).mpr (.inl entered))

/-- A host is added behind its own hops. -/
theorem Adds.enter {id : Uuid} (unknown : id ∉ walked.visited)
    (behind : Adds { walked with visited := id :: walked.visited } after new) :
    Adds walked { after with out := after.out ++ [id] } (new ++ [id]) where
  out := by
    show after.out ++ [id] = _
    rw [behind.out, append_assoc]
  visited host := by
    show host ∈ after.visited ↔ _
    rw [behind.visited, mem_cons, mem_append, mem_singleton]
    tauto
  nodup := by
    refine nodup_append.mpr ⟨behind.nodup, nodup_singleton id, ?_⟩
    intro host early other isId same
    rw [same, mem_singleton.mp isId] at early
    exact behind.fresh id early mem_cons_self
  fresh host member entered := by
    rcases mem_append.mp member with early | isId
    · exact behind.fresh host early (mem_cons_of_mem _ entered)
    · exact unknown (mem_singleton.mp isId ▸ entered)

theorem foldl_adds {step : Walked → Uuid → Walked}
    (each : ∀ walked hop, ∃ new, Adds walked (step walked hop) new) (hops : List Uuid)
    (walked : Walked) : ∃ new, Adds walked (hops.foldl step walked) new := by
  induction hops generalizing walked with
  | nil => exact ⟨[], .refl walked⟩
  | cons hop hops inductionHypothesis =>
    obtain ⟨new, first⟩ := each walked hop
    obtain ⟨more, second⟩ := inductionHypothesis (step walked hop)
    exact ⟨new ++ more, first.trans second⟩

theorem pushRoute_adds (connections : List Connection) (depth : Nat) (walked : Walked)
    (id : Uuid) : ∃ new, Adds walked (pushRoute connections depth walked id) new := by
  induction depth generalizing walked id with
  | zero => exact ⟨[], .refl walked⟩
  | succ depth inductionHypothesis =>
    rw [pushRoute]
    split
    · exact ⟨[], .refl walked⟩
    · rename_i unknown
      cases connections.find? fun conn => conn.id = id with
      | none => exact ⟨[id], .enter unknown (.refl _)⟩
      | some hop =>
        obtain ⟨new, behind⟩ := foldl_adds inductionHypothesis hop.jumpChain
          { walked with visited := id :: walked.visited }
        exact ⟨new ++ [id], .enter unknown behind⟩

end Adds

/-! ### Hosts behind hosts -/

section Jumps

variable (targetId : Uuid) (chain : List Uuid) (connections : List Connection)

/-- The hops of a host, by the chain of the target and the stored chains of the others. -/
def ownHops (id : Uuid) : List Uuid :=
  if id = targetId then chain
  else ((connections.find? fun conn => conn.id = id).map Connection.jumpChain).getD []

/-- A host is reached through a hop. -/
def Jumps (host hop : Uuid) : Prop := hop ∈ ownHops targetId chain connections host

/-- Every hop of a host on the route stands in front of it. -/
def Settled (route : List Uuid) : Prop :=
  ∀ before host after, route = before ++ host :: after →
    ∀ hop ∈ ownHops targetId chain connections host, hop ∈ before

/-- A walk that is at the hops of a host: what it has entered and not added is the host or behind
which the host sits. -/
structure Walking (host : Uuid) (walked : Walked) : Prop where
  target : targetId ∈ walked.visited
  settled : Settled targetId chain connections walked.out
  unadded : ∀ other ∈ walked.visited, other ∉ walked.out →
    ReflTransGen (Jumps targetId chain connections) other host

variable {targetId chain connections} {walked : Walked} {depth : Nat}

theorem Settled.concat {route : List Uuid} (settled : Settled targetId chain connections route)
    {id : Uuid} (hops : ∀ hop ∈ ownHops targetId chain connections id, hop ∈ route) :
    Settled targetId chain connections (route ++ [id]) := by
  intro before host after whole
  rcases eq_nil_or_concat after with rfl | ⟨between, last, rfl⟩
  · obtain ⟨rfl, same⟩ := append_inj' whole rfl
    cases same
    exact hops
  · rw [concat_eq_append, ← cons_append, ← append_assoc] at whole
    exact settled before host between (append_inj' whole rfl).1

theorem Walking.added {host : Uuid} {after : Walked} {new : List Uuid}
    (walking : Walking targetId chain connections host walked) (adds : Adds walked after new)
    (settled : Settled targetId chain connections after.out) :
    Walking targetId chain connections host after where
  target := (adds.visited _).mpr (.inl walking.target)
  settled := settled
  unadded other entered notAdded := by
    rw [adds.out, mem_append, not_or] at notAdded
    exact walking.unadded other (((adds.visited other).mp entered).resolve_right notAdded.2)
      notAdded.1

theorem foldl_walking {step : Walked → Uuid → Walked} {host : Uuid}
    (adds : ∀ walked hop, ∃ new, Adds walked (step walked hop) new) {hops : List Uuid}
    (each : ∀ walked, ∀ hop ∈ hops, unvisited connections walked.visited < depth →
      Walking targetId chain connections host walked →
      hop ∈ (step walked hop).out ∧ Walking targetId chain connections host (step walked hop))
    (enough : unvisited connections walked.visited < depth)
    (walking : Walking targetId chain connections host walked) :
    (∀ hop ∈ hops, hop ∈ (hops.foldl step walked).out) ∧
      Walking targetId chain connections host (hops.foldl step walked) := by
  induction hops generalizing walked with
  | nil => exact ⟨forall_mem_nil _, walking⟩
  | cons hop hops inductionHypothesis =>
    obtain ⟨added, after⟩ := each walked hop mem_cons_self enough walking
    obtain ⟨new, isNew⟩ := adds walked hop
    have left : unvisited connections (step walked hop).visited < depth :=
      Nat.lt_of_le_of_lt
        (unvisited_le fun other entered => (isNew.visited other).mpr (.inl entered)) enough
    obtain ⟨all, last⟩ := inductionHypothesis
      (fun walked other member => each walked other (mem_cons_of_mem _ member)) left after
    obtain ⟨more, isMore⟩ := foldl_adds adds hops (step walked hop)
    refine ⟨forall_mem_cons.mpr ⟨?_, all⟩, last⟩
    rw [foldl_cons, isMore.out]
    exact mem_append_left _ added

theorem pushRoute_walking
    (acyclic : ∀ host, ¬TransGen (Jumps targetId chain connections) host host) {host id : Uuid}
    (jumps : Jumps targetId chain connections host id)
    (enough : unvisited connections walked.visited < depth)
    (walking : Walking targetId chain connections host walked) :
    id ∈ (pushRoute connections depth walked id).out ∧
      Walking targetId chain connections host (pushRoute connections depth walked id) := by
  induction depth generalizing walked host id with
  | zero => exact absurd enough (Nat.not_lt_zero _)
  | succ depth inductionHypothesis =>
    obtain ⟨new, adds⟩ := pushRoute_adds connections (depth + 1) walked id
    suffices settles : id ∈ (pushRoute connections (depth + 1) walked id).out ∧
        Settled targetId chain connections (pushRoute connections (depth + 1) walked id).out from
      ⟨settles.1, walking.added adds settles.2⟩
    clear adds new
    rw [pushRoute]
    split
    · rename_i entered
      refine ⟨?_, walking.settled⟩
      by_contra notAdded
      exact acyclic id ((TransGen.tail' (walking.unadded id entered notAdded) jumps))
    · rename_i unknown
      have other : id ≠ targetId := fun same => unknown (same ▸ walking.target)
      refine ⟨mem_append_right _ (mem_singleton_self id), ?_⟩
      have entering : Walking targetId chain connections id
          { walked with visited := id :: walked.visited } := by
        refine ⟨mem_cons_of_mem _ walking.target, walking.settled, fun one entered added => ?_⟩
        rcases mem_cons.mp entered with rfl | before
        · exact .refl
        · exact (walking.unadded one before added).tail jumps
      cases found : connections.find? fun conn => conn.id = id with
      | none =>
        refine walking.settled.concat fun hop isOwn => ?_
        rw [ownHops, if_neg other, found] at isOwn
        cases isOwn
      | some hop =>
        have isId : hop.id = id := by simpa using find?_some found
        have own : ownHops targetId chain connections id = hop.jumpChain := by
          rw [ownHops, if_neg other, found]
          rfl
        have fewer := unvisited_cons_lt (mem_of_find?_eq_some found) (isId ▸ unknown)
        rw [isId] at fewer
        obtain ⟨all, after⟩ := foldl_walking (pushRoute_adds connections depth)
          (fun walked pre (member : pre ∈ hop.jumpChain) left walks =>
            inductionHypothesis (show pre ∈ _ from own.symm ▸ member) left walks)
          (Nat.lt_of_lt_of_le fewer (Nat.le_of_lt_succ enough)) entering
        refine after.settled.concat fun pre isOwn => ?_
        rw [own] at isOwn
        exact all pre isOwn

end Jumps

/-! ### The route -/

section Route

variable {targetId : Uuid} {chain : List Uuid} {connections : List Connection}

theorem route_adds (targetId : Uuid) (chain : List Uuid) (connections : List Connection) :
    Adds ⟨[targetId], []⟩ (chain.foldl (pushRoute connections (connections.length + 1))
      ⟨[targetId], []⟩) (expandedJumpChain targetId chain connections) := by
  obtain ⟨new, adds⟩ := foldl_adds (pushRoute_adds connections (connections.length + 1)) chain
    ⟨[targetId], []⟩
  have same : expandedJumpChain targetId chain connections = new := adds.out
  rw [same]
  exact adds

theorem route_walking
    (acyclic : ∀ host, ¬TransGen (Jumps targetId chain connections) host host) :
    (∀ hop ∈ chain, hop ∈ expandedJumpChain targetId chain connections) ∧
      Settled targetId chain connections (expandedJumpChain targetId chain connections) := by
  have own : ownHops targetId chain connections targetId = chain := if_pos rfl
  have starts : Walking targetId chain connections targetId ⟨[targetId], []⟩ := by
    refine ⟨mem_singleton_self _, fun before host after whole => ?_, fun other entered _ => ?_⟩
    · exact absurd whole.symm (append_ne_nil_of_right_ne_nil _ (cons_ne_nil _ _))
    · rw [mem_singleton.mp entered]
  obtain ⟨all, last⟩ := foldl_walking (pushRoute_adds connections (connections.length + 1))
    (fun walked hop (member : hop ∈ chain) left walks =>
      pushRoute_walking acyclic (show hop ∈ _ from own.symm ▸ member) left walks)
    (Nat.lt_succ_of_le (length_filter_le _ _)) starts
  exact ⟨all, last.settled⟩

/-- A hop of the target is the last of the route unless the hops before it lead over it. -/
theorem route_concat (front : List Uuid) {last : Uuid} (other : last ≠ targetId) :
    if last ∈ expandedJumpChain targetId front connections then
      expandedJumpChain targetId (front ++ [last]) connections =
        expandedJumpChain targetId front connections
    else (expandedJumpChain targetId (front ++ [last]) connections).getLast? = some last := by
  have entered := (route_adds targetId front connections).visited last
  rw [mem_singleton, or_iff_right other] at entered
  have whole : expandedJumpChain targetId (front ++ [last]) connections =
      (pushRoute connections (connections.length + 1) (front.foldl (pushRoute connections
        (connections.length + 1)) ⟨[targetId], []⟩) last).out := by
    rw [expandedJumpChain, foldl_append]
    rfl
  rw [whole, pushRoute]
  split_ifs with routed known unknown
  · rfl
  · exact absurd (entered.mpr routed) known
  · exact absurd (entered.mp unknown) routed
  · exact getLast?_concat

/-- The route of every target ends, holds no host twice and not the target; where no host sits
behind itself, every host stands behind its own hops, and the last hop of the target is the last
of the route unless the hops before it lead over it. -/
theorem expandedJumpChain_spec (targetId : Uuid) (chain : List Uuid)
    (connections : List Connection) :
    (∀ depth, connections.length < depth →
      (chain.foldl (pushRoute connections depth) ⟨[targetId], []⟩).out =
        expandedJumpChain targetId chain connections) ∧
    (expandedJumpChain targetId chain connections).Nodup ∧
    targetId ∉ expandedJumpChain targetId chain connections ∧
    ((∀ host, ¬TransGen (Jumps targetId chain connections) host host) →
      (∀ hop ∈ chain, hop ∈ expandedJumpChain targetId chain connections) ∧
      Settled targetId chain connections (expandedJumpChain targetId chain connections) ∧
      ∀ front last, chain = front ++ [last] →
        if last ∈ expandedJumpChain targetId front connections then
          expandedJumpChain targetId chain connections =
            expandedJumpChain targetId front connections
        else (expandedJumpChain targetId chain connections).getLast? = some last) := by
  have adds := route_adds targetId chain connections
  refine ⟨fun depth enough => expandedJumpChain_of_lt targetId chain enough, adds.nodup,
    fun member => adds.fresh targetId member (mem_singleton_self targetId), fun acyclic => ?_⟩
  obtain ⟨all, settled⟩ := route_walking acyclic
  refine ⟨all, settled, ?_⟩
  rintro front last rfl
  refine route_concat front ?_
  rintro rfl
  exact acyclic last (.single (by
    rw [Jumps, ownHops, if_pos rfl]
    exact mem_append_right _ (mem_singleton_self last)))

end Route

def storedHost (id : Uuid) (jumpChain : List Uuid) : Connection :=
  ⟨id, "", 22, true, true, .auto, none, .auto, none, false, none, none, none, jumpChain, none, none,
    none, none, none, none⟩

/-- A target behind a bastion and the bastion's own bastion: the route ends at the bastion. -/
theorem last_hop_routed_before :
    (∀ host, ¬TransGen (Jumps 3 [2, 1] [storedHost 1 [], storedHost 2 [1]]) host host) ∧
      expandedJumpChain 3 [2, 1] [storedHost 1 [], storedHost 2 [1]] = [1, 2] ∧
      (expandedJumpChain 3 [2, 1] [storedHost 1 [], storedHost 2 [1]]).getLast? ≠
        [2, 1].getLast? := by
  have lower : ∀ host hop, Jumps 3 [2, 1] [storedHost 1 [], storedHost 2 [1]] host hop →
      hop.toNat < host.toNat := by
    intro host hop jumps
    rw [Jumps, ownHops] at jumps
    split_ifs at jumps with isTarget
    · rw [isTarget]
      rcases mem_cons.mp jumps with rfl | first
      · decide
      · rw [mem_singleton.mp first]
        decide
    · by_cases first : host = 1
      · subst first
        cases jumps
      · by_cases second : host = 2
        · subst second
          rw [mem_singleton.mp jumps]
          decide
        · rw [find?_cons_of_neg fun same => first (of_decide_eq_true same).symm,
            find?_cons_of_neg fun same => second (of_decide_eq_true same).symm] at jumps
          cases jumps
  refine ⟨fun host loops => ?_, by decide, by decide⟩
  have less : ∀ hop, TransGen (Jumps 3 [2, 1] [storedHost 1 [], storedHost 2 [1]]) host hop →
      hop.toNat < host.toNat := by
    intro hop jumps
    induction jumps with
    | single jump => exact lower _ _ jump
    | tail _ jump inductionHypothesis => exact (lower _ _ jump).trans inductionHypothesis
  exact Nat.lt_irrefl _ (less host loops)

end Oryxis.Routes

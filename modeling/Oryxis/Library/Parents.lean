/-
This file is a small theory of parent functions.

A forest stored as rows that name their parents is a partial function from a node
to its parent, and nothing about the rows says that following it ends: it may run
into a node that has no parent, into one that does not exist, or into a loop. A
node is on a cycle when some number of steps leads back to it. Since there is one
way up, a cycle has no branches: what is above a node on a cycle is that cycle and
nothing else, and two cycles that share a node are the same one.

The two results the repair of a stored forest needs are about cutting edges. Where
every cycle loses at least one edge no cycle is left, and a node whose edge is not
cut keeps its parent.
-/

import Mathlib.Data.List.Chain

namespace Oryxis.Library.Parents

open Relation List

variable {Node : Type}

/-- One step up. -/
def Up (parent : Node → Option Node) (node above : Node) : Prop := parent node = some above

/-- Any number of steps up. -/
def Above (parent : Node → Option Node) : Node → Node → Prop := ReflTransGen (Up parent)

/-- At least one step up leads back. -/
def OnCycle (parent : Node → Option Node) (node : Node) : Prop := TransGen (Up parent) node node

variable {parent : Node → Option Node}

/-! ### Cycles have no branches -/

variable {node : Node}

theorem up_unique {left right : Node} (toLeft : Up parent node left)
    (toRight : Up parent node right) : left = right :=
  Option.some.inj (toLeft.symm.trans toRight)

variable {above : Node}

theorem onCycle_of_up (cyclic : OnCycle parent node) (up : Up parent node above) :
    OnCycle parent above ∧ Above parent above node := by
  obtain ⟨next, toNext, back⟩ := TransGen.head'_iff.mp cyclic
  rw [up_unique toNext up] at back
  exact ⟨TransGen.tail' back up, back⟩

/-- What is above a node on a cycle is on a cycle, and leads back to the node. -/
theorem onCycle_of_above (cyclic : OnCycle parent node) (reached : Above parent node above) :
    OnCycle parent above ∧ Above parent above node := by
  induction reached with
  | refl => exact ⟨cyclic, .refl⟩
  | tail _ up inductionHypothesis =>
    obtain ⟨middleCyclic, back⟩ := inductionHypothesis
    obtain ⟨aboveCyclic, step⟩ := onCycle_of_up middleCyclic up
    exact ⟨aboveCyclic, step.trans back⟩

theorem not_onCycle_of_root {root : Node} (reached : Above parent node root)
    (top : parent root = none) : ¬ OnCycle parent node := by
  intro cyclic
  obtain ⟨next, up, _⟩ := TransGen.head'_iff.mp (onCycle_of_above cyclic reached).1
  rw [Up, top] at up
  cases up

/-- A set of nodes that contains the parents of its members contains all that is above them. -/
theorem mem_of_above (closed : Node → Prop)
    (isClosed : ∀ node above, closed node → Up parent node above → closed above)
    (member : closed node) (reached : Above parent node above) :
    closed above := by
  induction reached with
  | refl => exact member
  | tail _ up inductionHypothesis => exact isClosed _ _ inductionHypothesis up

/-! ### Cutting edges -/

/-- The parent function after the edges of some nodes have been cut. -/
def cut (parent : Node → Option Node) (detached : Node → Bool) (node : Node) : Option Node :=
  if detached node then none else parent node

variable {detached : Node → Bool}

theorem up_of_up_cut (up : Up (cut parent detached) node above) :
    Up parent node above := by
  unfold Up cut at up
  split at up
  · cases up
  · exact up

theorem not_detached_of_up_cut (up : Up (cut parent detached) node above) :
    detached node = false := by
  unfold Up cut at up
  split at up
  · cases up
  · rename_i kept
    simpa using kept

/-- A cycle that survives the cut is intact: what was above its nodes still is. -/
theorem onCycle_cut_of_above (cyclic : OnCycle (cut parent detached) node)
    (reached : Above parent node above) : OnCycle (cut parent detached) above := by
  induction reached with
  | refl => exact cyclic
  | tail _ up inductionHypothesis =>
    obtain ⟨next, toNext, _⟩ := TransGen.head'_iff.mp inductionHypothesis
    rw [up_unique up (up_of_up_cut toNext)]
    exact (onCycle_of_up inductionHypothesis toNext).1

/-- Where every cycle loses an edge, no cycle is left. -/
theorem not_onCycle_cut
    (everyCycle : ∀ node, OnCycle parent node →
      ∃ breaker, Above parent node breaker ∧ detached breaker = true)
    (node : Node) : ¬ OnCycle (cut parent detached) node := by
  intro cyclic
  have before : OnCycle parent node := TransGen.mono (fun _ _ => up_of_up_cut) _ _ cyclic
  obtain ⟨breaker, reached, gone⟩ := everyCycle node before
  obtain ⟨next, up, _⟩ := TransGen.head'_iff.mp (onCycle_cut_of_above cyclic reached)
  rw [not_detached_of_up_cut up] at gone
  cases gone

/-! ### Chains of steps -/

variable {path : List Node}

/-- A chain of steps that ends at a node leads there from each of its members. -/
theorem transGen_of_isChain {last : Node} (chain : (path ++ [last]).IsChain (Up parent))
    (member : node ∈ path) :
    TransGen (Up parent) node last := by
  induction path generalizing node with
  | nil => cases member
  | cons first rest inductionHypothesis =>
    have tailChain : (rest ++ [last]).IsChain (Up parent) := IsChain.tail chain
    rcases mem_cons.mp member with rfl | later
    · cases rest with
      | nil => exact .single (by simpa using chain)
      | cons second rest =>
        have up : Up parent node second := by
          rw [cons_append, cons_append, isChain_cons_cons] at chain
          exact chain.1
        exact .head up (inductionHypothesis tailChain (mem_cons_self ..))
    · exact inductionHypothesis tailChain later

/-- A chain of steps leads from its first member to all others. -/
theorem above_of_isChain {first : Node} (chain : (first :: path).IsChain (Up parent))
    (member : node ∈ first :: path) :
    Above parent first node := by
  induction path generalizing first with
  | nil =>
    rw [mem_singleton] at member
    rw [member]
    exact .refl
  | cons second rest inductionHypothesis =>
    rcases mem_cons.mp member with rfl | later
    · exact .refl
    · rw [isChain_cons_cons] at chain
      exact .head chain.1 (inductionHypothesis chain.2 later)

/-- The parent of a member of a chain is the next member, or the node the chain ends at. -/
theorem mem_or_eq_of_isChain {last : Node} (chain : (path ++ [last]).IsChain (Up parent))
    (member : node ∈ path) (up : Up parent node above) : above ∈ path ∨ above = last := by
  induction path with
  | nil => cases member
  | cons first rest inductionHypothesis =>
    have tailChain : (rest ++ [last]).IsChain (Up parent) := IsChain.tail chain
    rcases mem_cons.mp member with rfl | later
    · cases rest with
      | nil =>
        have step : Up parent node last := by simpa using chain
        exact .inr (up_unique up step)
      | cons second rest =>
        rw [cons_append, cons_append, isChain_cons_cons] at chain
        rw [up_unique up chain.1]
        exact .inl (by simp)
    · rcases inductionHypothesis tailChain later with inside | top
      · exact .inl (mem_cons_of_mem _ inside)
      · exact .inr top

end Oryxis.Library.Parents

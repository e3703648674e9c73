/-
This file is `Group::cycle_breakers`, the choice of the groups to detach so that
the stored group tree has no parent cycle.

The walk goes up from every group in turn and stops where it meets a group it has
already resolved, where the chain ends, or where it meets itself; in the last case
the cycle is the tail of the path from the first occurrence, and its newest member
is the breaker. Fuel stands for the loop's own argument that it ends: every turn
puts a new group on the path, so `groups.length + 1` turns are enough.

What the walk maintains is that the resolved ids are closed under parents and that
every cycle among them has exactly one breaker. A chain that leads into resolved
ids therefore closes no new cycle, and the members of a chain before the cycle it
runs into are not on it.
-/

import Mathlib.Data.List.Nodup
import Mathlib.Data.List.Perm.Subperm
import Oryxis.Library.Parents
import Oryxis.Vault.Entities

namespace Oryxis

open Library.Parents List

namespace Group

/-- The order of `max_by`: stamps first, ties broken by id. -/
def precedes (left right : Group) : Bool :=
  left.updatedAt < right.updatedAt || (left.updatedAt = right.updatedAt && left.id ≤ right.id)

/-- The last of the greatest groups of a list. -/
def newest : List Group → Option Group
  | [] => none
  | first :: rest =>
    some (rest.foldl (fun best group => if best.precedes group then group else best) first)

def withId (groups : List Group) (id : Uuid) : Option Group :=
  groups.find? fun group => group.id = id

/-- One walk up: the path it took, and the cycle it closed, if it closed one. -/
def climb (groups : List Group) (done : List Uuid) :
    Nat → List Uuid → Option Uuid → List Uuid × List Uuid
  | 0, path, _ => (path, [])
  | _ + 1, path, none => (path, [])
  | fuel + 1, path, some id =>
    if done.contains id then (path, [])
    else if path.contains id then (path, path.drop (path.idxOf id))
    else
      match withId groups id with
      | none => (path ++ [id], [])
      | some group => climb groups done fuel (path ++ [id]) group.parentId

/-- The walk from one group: what is resolved after it, and the breakers found so far. -/
def resolveFrom (groups : List Group) (state : List Uuid × List Uuid) (start : Group) :
    List Uuid × List Uuid :=
  if state.1.contains start.id then state
  else
    let (path, cycle) := climb groups state.1 (groups.length + 1) [] (some start.id)
    (state.1 ++ path, state.2 ++ ((newest (cycle.filterMap (withId groups))).map Group.id).toList)

def cycleBreakers (groups : List Group) : List Uuid :=
  (groups.foldl (resolveFrom groups) ([], [])).2

/-- The stored parent of a group; a group that is not stored has none. -/
def parentIn (groups : List Group) (id : Uuid) : Option Uuid :=
  (withId groups id).bind Group.parentId

/-! ### Looking a group up -/

variable {id : Uuid}

theorem id_of_withId {groups : List Group} {group : Group} (found : withId groups id = some group) :
    group.id = id := by
  simpa using find?_some found

theorem mem_of_withId {groups : List Group} {group : Group} (found : withId groups id = some group) : group ∈ groups :=
  mem_of_find?_eq_some found

theorem exists_withId_of_up {groups : List Group} {above : Uuid}
    (up : Up (parentIn groups) id above) : ∃ group, withId groups id = some group := by
  unfold Up parentIn at up
  cases found : withId groups id with
  | none => simp [found] at up
  | some group => exact ⟨group, rfl⟩

/-! ### The newest group of a list -/

theorem precedes_refl (group : Group) : group.precedes group = true := by
  simp [precedes]

theorem precedes_trans {left middle right : Group} (first : left.precedes middle = true)
    (second : middle.precedes right = true) : left.precedes right = true := by
  simp only [precedes, Bool.or_eq_true, Bool.and_eq_true, decide_eq_true_eq] at first second ⊢
  grind

theorem precedes_of_not {left right : Group} (not : ¬ left.precedes right = true) :
    right.precedes left = true := by
  simp only [precedes, Bool.or_eq_true, Bool.and_eq_true, decide_eq_true_eq] at not ⊢
  grind

theorem foldl_newest (rest : List Group) (first : Group) :
    let best := rest.foldl (fun best group => if best.precedes group then group else best) first
    best ∈ first :: rest ∧ ∀ group ∈ first :: rest, group.precedes best = true := by
  induction rest generalizing first with
  | nil => simp [precedes_refl]
  | cons second rest inductionHypothesis =>
    rw [foldl_cons]
    split
    · rename_i older
      obtain ⟨member, bound⟩ := inductionHypothesis second
      refine ⟨mem_cons_of_mem _ member, fun group among => ?_⟩
      rcases mem_cons.mp among with rfl | later
      · exact precedes_trans older (bound second (mem_cons_self ..))
      · exact bound group later
    · rename_i newer
      obtain ⟨member, bound⟩ := inductionHypothesis first
      refine ⟨?_, fun group among => ?_⟩
      · rcases mem_cons.mp member with same | later
        · rw [same]
          exact mem_cons_self ..
        · exact mem_cons_of_mem _ (mem_cons_of_mem _ later)
      · rcases mem_cons.mp among with rfl | later
        · exact bound group (mem_cons_self ..)
        · rcases mem_cons.mp later with rfl | later
          · exact precedes_trans (precedes_of_not newer) (bound first (mem_cons_self ..))
          · exact bound group (mem_cons_of_mem _ later)

theorem newest_eq_some {groups : List Group} {best : Group} (found : newest groups = some best) :
    best ∈ groups ∧ ∀ group ∈ groups, group.precedes best = true := by
  cases groups with
  | nil => cases found
  | cons first rest =>
    cases found
    exact foldl_newest rest first

/-! ### One walk -/

section Climb

variable {groups : List Group} {done : List Uuid}

/-- What holds in every turn of the walk. -/
structure Climbing (groups : List Group) (done path : List Uuid) (cursor : Option Uuid) :
    Prop where
  chain : (path ++ cursor.toList).IsChain (Up (parentIn groups))
  top : cursor = none → ∀ last, path.getLast? = some last → parentIn groups last = none
  nodup : path.Nodup
  fresh : ∀ id ∈ path, id ∉ done
  stored : ∀ id ∈ path, ∃ group, withId groups id = some group

/-- What a finished walk has found out about its path. -/
structure Climbed (groups : List Group) (done : List Uuid) (cursor : Option Uuid)
    (path cycle : List Uuid) : Prop where
  reaches : ∀ id, cursor = some id → id ∈ path ∨ id ∈ done
  closed : ∀ id ∈ path, ∀ above, Up (parentIn groups) id above → above ∈ path ∨ above ∈ done
  fresh : ∀ id ∈ path, id ∉ done
  onCycle : ∀ id ∈ path, OnCycle (parentIn groups) id ↔ id ∈ cycle
  inside : ∀ id ∈ cycle, id ∈ path
  connected : ∀ id ∈ cycle, ∀ other ∈ cycle, Above (parentIn groups) id other

variable {path : List Uuid} {cursor : Option Uuid}

/-- The chain ends at a node without a parent. -/
theorem climbed_of_top {last : Uuid} (chain : (path ++ [last]).IsChain (Up (parentIn groups)))
    (top : parentIn groups last = none) (fresh : ∀ id ∈ path ++ [last], id ∉ done)
    (reaches : ∀ id, cursor = some id → id ∈ path ++ [last]) :
    Climbed groups done cursor (path ++ [last]) [] where
  reaches id here := .inl (reaches id here)
  closed id member above up := by
    rcases mem_append.mp member with inside | single
    · rcases mem_or_eq_of_isChain chain inside up with next | rfl
      · exact .inl (mem_append_left _ next)
      · exact .inl (by simp)
    · rw [mem_singleton] at single
      rw [single, Up, top] at up
      cases up
  fresh := fresh
  onCycle id member := by
    have reached : Above (parentIn groups) id last := by
      rcases mem_append.mp member with inside | single
      · exact (transGen_of_isChain chain inside).to_reflTransGen
      · rw [mem_singleton.mp single]
        exact .refl
    simp [not_onCycle_of_root reached top]
  inside id member := by cases member
  connected id member := by cases member

/-- The chain runs into what is already resolved. -/
theorem climbed_of_done {last : Uuid}
    (closed : ∀ id ∈ done, ∀ above, Up (parentIn groups) id above → above ∈ done)
    (chain : (path ++ [last]).IsChain (Up (parentIn groups))) (known : last ∈ done)
    (fresh : ∀ id ∈ path, id ∉ done) : Climbed groups done (some last) path [] where
  reaches id here := .inr (Option.some.inj here ▸ known)
  closed id member above up := by
    rcases mem_or_eq_of_isChain chain member up with next | rfl
    · exact .inl next
    · exact .inr known
  fresh := fresh
  onCycle id member := by
    simp only [not_mem_nil, iff_false]
    intro cyclic
    have back := (onCycle_of_above cyclic
      (transGen_of_isChain chain member).to_reflTransGen).2
    exact fresh id member (mem_of_above (· ∈ done)
      (fun node above member up => closed node member above up) known back)
  inside id member := by cases member
  connected id member := by cases member

/-- The chain runs into itself, and the cycle is its tail from there. -/
theorem climbed_of_loop {before rest : List Uuid} {first : Uuid}
    (chain : (before ++ first :: rest ++ [first]).IsChain (Up (parentIn groups)))
    (fresh : ∀ id ∈ before ++ first :: rest, id ∉ done) :
    Climbed groups done (some first) (before ++ first :: rest) (first :: rest) := by
  have loop : (first :: rest ++ [first]).IsChain (Up (parentIn groups)) := by
    rw [append_assoc] at chain
    exact chain.right_of_append
  have fromFirst : ∀ id ∈ first :: rest, Above (parentIn groups) first id := fun id member =>
    above_of_isChain loop.left_of_append member
  have toFirst : ∀ id ∈ before ++ first :: rest,
      Relation.TransGen (Up (parentIn groups)) id first := fun id member =>
    transGen_of_isChain chain member
  have cycleClosed : ∀ id above, id ∈ first :: rest → Up (parentIn groups) id above →
      above ∈ first :: rest := by
    intro id above member up
    rcases mem_or_eq_of_isChain loop member up with next | rfl
    · exact next
    · exact mem_cons_self ..
  refine ⟨?_, ?_, fresh, ?_, fun id => mem_append_right _, ?_⟩
  · rintro id ⟨rfl⟩
    exact .inl (by simp)
  · intro id member above up
    rcases mem_or_eq_of_isChain chain member up with next | rfl
    · exact .inl next
    · exact .inl (by simp)
  · intro id member
    constructor
    · intro cyclic
      have back := (onCycle_of_above cyclic (toFirst id member).to_reflTransGen).2
      exact mem_of_above (· ∈ first :: rest) cycleClosed (mem_cons_self ..) back
    · intro inCycle
      exact Relation.TransGen.trans_left (toFirst id member) (fromFirst id inCycle)
  · intro id member other otherMember
    exact (toFirst id (mem_append_right _ member)).to_reflTransGen.trans
      (fromFirst other otherMember)

/-- Fewer turns are left than groups can still come onto the path. -/
theorem length_le_of_climbing (walk : Climbing groups done path cursor) :
    path.length ≤ groups.length := by
  have subset : path ⊆ groups.map Group.id := by
    intro id member
    obtain ⟨group, found⟩ := walk.stored id member
    exact mem_map.mpr ⟨group, mem_of_withId found, id_of_withId found⟩
  have shorter := (walk.nodup.subperm subset).length_le
  rwa [length_map] at shorter

theorem Climbing.push {id : Uuid} {group : Group} (walk : Climbing groups done path (some id))
    (fresh : id ∉ done) (new : id ∉ path) (found : withId groups id = some group) :
    Climbing groups done (path ++ [id]) group.parentId where
  chain := by
    refine isChain_append.mpr ⟨walk.chain, ?_, ?_⟩
    · cases group.parentId <;> simp
    · intro last isLast next isNext
      have here : last = id := by simpa using isLast.symm
      rw [here, Up, parentIn, found, Option.bind_some]
      cases parent : group.parentId with
      | none => simp [parent] at isNext
      | some above => simpa [parent] using isNext
  top noParent last isLast := by
    have here : last = id := by simpa using isLast.symm
    rw [here, parentIn, found, Option.bind_some, noParent]
  nodup := by
    rw [nodup_append]
    refine ⟨walk.nodup, nodup_singleton _, ?_⟩
    intro other member single isSingle same
    rw [mem_singleton] at isSingle
    exact new (isSingle ▸ same ▸ member)
  fresh other member := by
    rcases mem_append.mp member with inside | single
    · exact walk.fresh other inside
    · rw [mem_singleton.mp single]
      exact fresh
  stored other member := by
    rcases mem_append.mp member with inside | single
    · exact walk.stored other inside
    · rw [mem_singleton.mp single]
      exact ⟨group, found⟩

theorem climb_spec (closed : ∀ id ∈ done, ∀ above, Up (parentIn groups) id above → above ∈ done)
    (fuel : Nat) (walk : Climbing groups done path cursor)
    (enough : groups.length < fuel + path.length) :
    (∀ id ∈ path, id ∈ (climb groups done fuel path cursor).1) ∧
    Climbed groups done cursor (climb groups done fuel path cursor).1
      (climb groups done fuel path cursor).2 := by
  induction fuel generalizing path cursor with
  | zero => exact absurd (length_le_of_climbing walk) (by omega)
  | succ fuel inductionHypothesis =>
    cases cursor with
    | none =>
      refine ⟨fun _ member => member, ?_⟩
      rcases eq_nil_or_concat path with rfl | ⟨before, last, rfl⟩
      · exact ⟨by simp, by simp [climb], by simp [climb], by simp [climb], by simp [climb],
          by simp [climb]⟩
      · rw [concat_eq_append] at walk ⊢
        have chain := walk.chain
        rw [Option.toList_none, append_nil] at chain
        exact climbed_of_top chain (walk.top rfl last (by simp)) walk.fresh
          fun _ noCursor => by cases noCursor
    | some id =>
      rw [climb]
      split
      · rename_i known
        exact ⟨fun _ member => member,
          climbed_of_done closed walk.chain (by simpa using known) walk.fresh⟩
      · rename_i unknown
        have fresh : id ∉ done := by simpa using unknown
        split
        · rename_i again
          refine ⟨fun _ member => member, ?_⟩
          obtain ⟨before, rest, rfl, new⟩ :=
            eq_append_cons_of_mem (contains_iff_mem.mp again)
          have tail : (before ++ id :: rest).drop ((before ++ id :: rest).idxOf id) =
              id :: rest := by
            rw [idxOf_append_of_notMem new, idxOf_cons_self, Nat.add_zero,
              drop_left]
          rw [tail]
          exact climbed_of_loop walk.chain walk.fresh
        · rename_i new
          have notOnPath : id ∉ path := by simpa using new
          split
          · rename_i absent
            refine ⟨fun _ member => mem_append_left _ member, ?_⟩
            refine climbed_of_top walk.chain (by rw [parentIn, absent]; rfl) ?_ ?_
            · intro other member
              rcases mem_append.mp member with inside | single
              · exact walk.fresh other inside
              · rw [mem_singleton.mp single]
                exact fresh
            · rintro other ⟨rfl⟩
              simp
          · rename_i group found
            obtain ⟨extends_, climbed⟩ := inductionHypothesis
              (walk.push fresh notOnPath found) (by rw [length_append]; simp; omega)
            refine ⟨fun other member => extends_ other (mem_append_left _ member), ?_⟩
            exact ⟨by rintro other ⟨rfl⟩; exact .inl (extends_ id (by simp)), climbed.closed,
              climbed.fresh, climbed.onCycle, climbed.inside, climbed.connected⟩

end Climb

/-! ### All walks together -/

/-- What is known of the resolved ids: each cycle among them has one breaker, its newest member. -/
structure Resolved (groups : List Group) (done breakers : List Uuid) : Prop where
  closed : ∀ id ∈ done, ∀ above, Up (parentIn groups) id above → above ∈ done
  inside : ∀ breaker ∈ breakers, breaker ∈ done
  onCycle : ∀ breaker ∈ breakers, OnCycle (parentIn groups) breaker
  covered : ∀ id ∈ done, OnCycle (parentIn groups) id →
    ∃ breaker ∈ breakers, Above (parentIn groups) id breaker
  apart : breakers.Pairwise fun breaker other => ¬ Above (parentIn groups) breaker other
  newest : ∀ breaker ∈ breakers, ∃ best, withId groups breaker = some best ∧
    ∀ id group, Above (parentIn groups) breaker id → withId groups id = some group →
      group.precedes best = true

variable {groups : List Group}

theorem resolved_nil : Resolved groups [] [] where
  closed id member := by cases member
  inside breaker member := by cases member
  onCycle breaker member := by cases member
  covered id member := by cases member
  apart := List.Pairwise.nil
  newest breaker member := by cases member

variable {path cycle : List Uuid} {cursor : Option Uuid}

/-- The breaker of a closed walk is a member of the cycle, and the newest one. -/
theorem newest_of_climbed {done : List Uuid}
    (closed : ∀ id ∈ done, ∀ above, Up (parentIn groups) id above → above ∈ done)
    (climbed : Climbed groups done cursor path cycle) {best : Group}
    (found : newest (cycle.filterMap (withId groups)) = some best) :
    best.id ∈ cycle ∧ withId groups best.id = some best ∧
      ∀ id group, Above (parentIn groups) best.id id → withId groups id = some group →
        group.precedes best = true := by
  obtain ⟨member, bound⟩ := newest_eq_some found
  obtain ⟨id, inCycle, lookup⟩ := mem_filterMap.mp member
  have sameId : best.id = id := id_of_withId lookup
  subst sameId
  refine ⟨inCycle, lookup, fun other group reached groupFound => bound group ?_⟩
  have cyclic : OnCycle (parentIn groups) best.id :=
    (climbed.onCycle _ (climbed.inside _ inCycle)).mpr inCycle
  have otherInCycle : other ∈ cycle := by
    have stays : ∀ node above, (node ∈ cycle ∧ OnCycle (parentIn groups) node) →
        Up (parentIn groups) node above → above ∈ cycle ∧ OnCycle (parentIn groups) above := by
      rintro node above ⟨nodeInCycle, nodeCyclic⟩ up
      have aboveCyclic := (onCycle_of_up nodeCyclic up).1
      refine ⟨?_, aboveCyclic⟩
      rcases climbed.closed node (climbed.inside node nodeInCycle) above up with next | resolved
      · exact (climbed.onCycle above next).mp aboveCyclic
      · have back := (onCycle_of_up nodeCyclic up).2
        exact absurd (mem_of_above (· ∈ done)
          (fun id above member up => closed id member above up) resolved back)
          (climbed.fresh node (climbed.inside node nodeInCycle))
    exact (mem_of_above _ stays ⟨inCycle, cyclic⟩ reached).1
  exact mem_filterMap.mpr ⟨other, otherInCycle, groupFound⟩

/-- A cycle that was closed has a newest member. -/
theorem exists_newest_of_climbed {done : List Uuid}
    (climbed : Climbed groups done cursor path cycle) (inCycle : id ∈ cycle) :
    ∃ best, newest (cycle.filterMap (withId groups)) = some best := by
  have cyclic : OnCycle (parentIn groups) id :=
    (climbed.onCycle id (climbed.inside id inCycle)).mpr inCycle
  obtain ⟨above, up, _⟩ := Relation.TransGen.head'_iff.mp cyclic
  obtain ⟨group, found⟩ := exists_withId_of_up up
  have member : group ∈ cycle.filterMap (withId groups) :=
    mem_filterMap.mpr ⟨id, inCycle, found⟩
  cases members : cycle.filterMap (withId groups) with
  | nil => simp [members] at member
  | cons first rest => exact ⟨_, rfl⟩

theorem resolved_append {done breakers : List Uuid} {start : Uuid}
    (resolved : Resolved groups done breakers)
    (climbed : Climbed groups done (some start) path cycle) :
    Resolved groups (done ++ path)
      (breakers ++ ((newest (cycle.filterMap (withId groups))).map Group.id).toList) := by
  have isNew : ∀ breaker,
      breaker ∈ ((newest (cycle.filterMap (withId groups))).map Group.id).toList →
      ∃ best, best.id = breaker ∧ newest (cycle.filterMap (withId groups)) = some best := by
    intro breaker member
    obtain ⟨best, found, rfl⟩ := Option.map_eq_some_iff.mp (Option.mem_toList.mp member)
    exact ⟨best, rfl, found⟩
  constructor
  · intro id member above up
    rcases mem_append.mp member with old | new
    · exact mem_append_left _ (resolved.closed id old above up)
    · rcases climbed.closed id new above up with inside | known
      · exact mem_append_right _ inside
      · exact mem_append_left _ known
  · intro breaker member
    rcases mem_append.mp member with old | new
    · exact mem_append_left _ (resolved.inside breaker old)
    · obtain ⟨best, rfl, found⟩ := isNew breaker new
      exact mem_append_right _
        (climbed.inside _ (newest_of_climbed resolved.closed climbed found).1)
  · intro breaker member
    rcases mem_append.mp member with old | new
    · exact resolved.onCycle breaker old
    · obtain ⟨best, rfl, found⟩ := isNew breaker new
      have inCycle := (newest_of_climbed resolved.closed climbed found).1
      exact (climbed.onCycle _ (climbed.inside _ inCycle)).mpr inCycle
  · intro id member cyclic
    rcases mem_append.mp member with old | new
    · obtain ⟨breaker, inBreakers, reached⟩ := resolved.covered id old cyclic
      exact ⟨breaker, mem_append_left _ inBreakers, reached⟩
    · have inCycle := (climbed.onCycle id new).mp cyclic
      obtain ⟨best, found⟩ := exists_newest_of_climbed climbed inCycle
      refine ⟨best.id, mem_append_right _ (by simp [found]), ?_⟩
      exact climbed.connected id inCycle best.id
        (newest_of_climbed resolved.closed climbed found).1
  · refine pairwise_append.mpr ⟨resolved.apart, ?_, ?_⟩
    · cases newest (cycle.filterMap (withId groups)) <;> simp
    · intro breaker old other new reached
      obtain ⟨best, rfl, found⟩ := isNew other new
      have known : best.id ∈ done := mem_of_above (· ∈ done)
        (fun id above member up => resolved.closed id member above up)
        (resolved.inside breaker old) reached
      exact climbed.fresh best.id
        (climbed.inside _ (newest_of_climbed resolved.closed climbed found).1) known
  · intro breaker member
    rcases mem_append.mp member with old | new
    · exact resolved.newest breaker old
    · obtain ⟨best, rfl, found⟩ := isNew breaker new
      exact ⟨best, (newest_of_climbed resolved.closed climbed found).2⟩

theorem resolveFrom_spec {state : List Uuid × List Uuid} (start : Group)
    (resolved : Resolved groups state.1 state.2) :
    Resolved groups (resolveFrom groups state start).1 (resolveFrom groups state start).2 ∧
      start.id ∈ (resolveFrom groups state start).1 ∧
      ∀ id ∈ state.1, id ∈ (resolveFrom groups state start).1 := by
  unfold resolveFrom
  split
  · rename_i known
    exact ⟨resolved, by simpa using known, fun _ member => member⟩
  · have begun : Climbing groups state.1 [] (some start.id) :=
      ⟨by simp, by simp, nodup_nil, by simp, by simp⟩
    obtain ⟨_, climbed⟩ :=
      climb_spec resolved.closed (groups.length + 1) begun (by simp)
    refine ⟨resolved_append resolved climbed, ?_, fun _ member => mem_append_left _ member⟩
    rcases climbed.reaches start.id rfl with inside | known
    · exact mem_append_right _ inside
    · exact mem_append_left _ known

theorem foldl_resolveFrom_spec (starts : List Group) (state : List Uuid × List Uuid)
    (resolved : Resolved groups state.1 state.2) :
    Resolved groups (starts.foldl (resolveFrom groups) state).1
        (starts.foldl (resolveFrom groups) state).2 ∧
      (∀ start ∈ starts, start.id ∈ (starts.foldl (resolveFrom groups) state).1) ∧
      ∀ id ∈ state.1, id ∈ (starts.foldl (resolveFrom groups) state).1 := by
  induction starts generalizing state with
  | nil => exact ⟨resolved, by simp, fun _ member => member⟩
  | cons start starts inductionHypothesis =>
    obtain ⟨step, reached, kept⟩ := resolveFrom_spec start resolved
    obtain ⟨final, visited, keeps⟩ := inductionHypothesis _ step
    refine ⟨final, fun other member => ?_, fun id member => keeps id (kept id member)⟩
    rcases mem_cons.mp member with rfl | later
    · exact keeps _ reached
    · exact visited other later

/-! ### The breakers -/

theorem cycleBreakers_resolved (groups : List Group) :
    ∃ done, Resolved groups done (cycleBreakers groups) ∧ ∀ group ∈ groups, group.id ∈ done := by
  obtain ⟨resolved, visited, _⟩ :=
    foldl_resolveFrom_spec groups ([], []) (resolved_nil : Resolved groups [] [])
  exact ⟨_, resolved, visited⟩

variable {breaker : Uuid}

/-- Only groups on a cycle are detached. -/
theorem onCycle_of_mem_cycleBreakers (member : breaker ∈ cycleBreakers groups) :
    OnCycle (parentIn groups) breaker := by
  obtain ⟨done, resolved, _⟩ := cycleBreakers_resolved groups
  exact resolved.onCycle breaker member

/-- Every cycle has a breaker. -/
theorem exists_mem_cycleBreakers (cyclic : OnCycle (parentIn groups) id) :
    ∃ breaker ∈ cycleBreakers groups, Above (parentIn groups) id breaker := by
  obtain ⟨done, resolved, visited⟩ := cycleBreakers_resolved groups
  obtain ⟨above, up, _⟩ := Relation.TransGen.head'_iff.mp cyclic
  obtain ⟨group, found⟩ := exists_withId_of_up up
  have known : id ∈ done := id_of_withId found ▸ visited group (mem_of_withId found)
  exact resolved.covered id known cyclic

/-- No cycle has two. -/
theorem eq_of_mem_cycleBreakers {other : Uuid} (member : breaker ∈ cycleBreakers groups)
    (otherMember : other ∈ cycleBreakers groups) (reached : Above (parentIn groups) breaker other) :
    breaker = other := by
  obtain ⟨done, resolved, _⟩ := cycleBreakers_resolved groups
  by_contra different
  have back := (onCycle_of_above (resolved.onCycle breaker member) reached).2
  have apart : (cycleBreakers groups).Pairwise fun left right =>
      ¬ (Above (parentIn groups) left right ∧ Above (parentIn groups) right left) :=
    resolved.apart.imp fun distinct both => distinct both.1
  have : Std.Symm fun left right : Uuid =>
      ¬ (Above (parentIn groups) left right ∧ Above (parentIn groups) right left) :=
    ⟨fun _ _ distinct both => distinct both.symm⟩
  exact apart.forall member otherMember different ⟨reached, back⟩

/-- The breaker of a cycle is its newest member. -/
theorem newest_of_mem_cycleBreakers (member : breaker ∈ cycleBreakers groups) :
    ∃ best, withId groups breaker = some best ∧
      ∀ id group, Above (parentIn groups) breaker id → withId groups id = some group →
        group.precedes best = true := by
  obtain ⟨done, resolved, _⟩ := cycleBreakers_resolved groups
  exact resolved.newest breaker member

theorem cycleBreakers_eq_nil (acyclic : ∀ id, ¬ OnCycle (parentIn groups) id) :
    cycleBreakers groups = [] := by
  rw [eq_nil_iff_forall_not_mem]
  intro breaker member
  exact acyclic breaker (onCycle_of_mem_cycleBreakers member)

/-! ### The walks end -/

/-- With more groups than the path has, a walk does not use up its turns. -/
theorem climb_succ {groups : List Group} {done : List Uuid} {fuel : Nat}
    (walk : Climbing groups done path cursor) (enough : groups.length < fuel + path.length) :
    climb groups done (fuel + 1) path cursor = climb groups done fuel path cursor := by
  induction fuel generalizing path cursor with
  | zero =>
    have within := length_le_of_climbing walk
    omega
  | succ fuel inductionHypothesis =>
    cases cursor with
    | none => rfl
    | some id =>
      rw [climb, climb]
      split
      · rfl
      · rename_i fresh
        split
        · rfl
        · rename_i new
          split
          · rfl
          · rename_i group found
            refine inductionHypothesis (walk.push ?_ ?_ found) ?_
            · exact fun known => fresh (contains_iff_mem.mpr known)
            · exact fun again => new (contains_iff_mem.mpr again)
            · rw [length_append, length_singleton]
              omega

theorem climb_of_lt {groups : List Group} (done : List Uuid) (start : Uuid) {fuel : Nat}
    (enough : groups.length < fuel) :
    climb groups done fuel [] (some start) =
      climb groups done (groups.length + 1) [] (some start) := by
  have begun : Climbing groups done [] (some start) :=
    ⟨isChain_singleton _, fun none => absurd none (Option.some_ne_none _), nodup_nil,
      forall_mem_nil _, forall_mem_nil _⟩
  induction enough with
  | refl => rfl
  | step enough inductionHypothesis => rw [climb_succ begun enough, inductionHypothesis]

/-! ### Distinct groups -/

section Distinct

variable {groups : List Group} (distinct : (groups.map Group.id).Nodup)

include distinct in
theorem withId_eq_some_iff {id : Uuid} {group : Group} :
    withId groups id = some group ↔ group ∈ groups ∧ group.id = id := by
  refine ⟨fun found => ⟨mem_of_withId found, id_of_withId found⟩, ?_⟩
  rintro ⟨member, rfl⟩
  cases found : withId groups group.id with
  | none =>
    have absent := find?_eq_none.mp found group member
    exact absurd (decide_eq_true rfl) absent
  | some other =>
    rw [inj_on_of_nodup_map distinct (mem_of_withId found) member (id_of_withId found)]

theorem eq_of_precedes {left right : Group} (first : left.precedes right = true)
    (second : right.precedes left = true) : left.id = right.id := by
  simp only [precedes, Bool.or_eq_true, Bool.and_eq_true, decide_eq_true_eq] at first second
  grind

theorem nodup_cycleBreakers (groups : List Group) : (cycleBreakers groups).Nodup := by
  obtain ⟨done, resolved, _⟩ := cycleBreakers_resolved groups
  refine Pairwise.imp (fun {breaker other} apart same => ?_) resolved.apart
  exact apart (same ▸ .refl)

include distinct in
/-- The breakers are the greatest members of the cycles. -/
theorem mem_cycleBreakers_iff {id : Uuid} :
    id ∈ cycleBreakers groups ↔ OnCycle (parentIn groups) id ∧
      ∃ group ∈ groups, group.id = id ∧
        ∀ other ∈ groups, Above (parentIn groups) id other.id → other.precedes group = true := by
  constructor
  · intro member
    obtain ⟨best, found, greatest⟩ := newest_of_mem_cycleBreakers member
    exact ⟨onCycle_of_mem_cycleBreakers member, best, mem_of_withId found, id_of_withId found,
      fun other stored above =>
        greatest other.id other above ((withId_eq_some_iff distinct).mpr ⟨stored, rfl⟩)⟩
  · rintro ⟨cyclic, group, stored, rfl, greatest⟩
    obtain ⟨breaker, member, above⟩ := exists_mem_cycleBreakers cyclic
    obtain ⟨best, found, bound⟩ := newest_of_mem_cycleBreakers member
    have isBreaker := id_of_withId found
    have back := (onCycle_of_above cyclic above).2
    have same := eq_of_precedes
      (bound group.id group back ((withId_eq_some_iff distinct).mpr ⟨stored, rfl⟩))
      (greatest best (mem_of_withId found) (isBreaker ▸ above))
    rw [same, isBreaker]
    exact member

include distinct in
theorem parentIn_of_perm {permuted : List Group} (perm : groups.Perm permuted) :
    parentIn groups = parentIn permuted := by
  funext id
  have same : withId groups id = withId permuted id := by
    refine Option.ext fun group => ?_
    rw [withId_eq_some_iff distinct, withId_eq_some_iff ((perm.map Group.id).nodup_iff.mp distinct),
      perm.mem_iff]
  rw [parentIn, same, parentIn]

/-- The groups without the parents of the breakers. -/
def detached (groups : List Group) : List Group :=
  groups.map fun group =>
    if (cycleBreakers groups).contains group.id then { group with parentId := none } else group

theorem parentIn_detached (groups : List Group) :
    parentIn (detached groups) =
      cut (parentIn groups) fun id => (cycleBreakers groups).contains id := by
  funext id
  have sameId : ∀ group : Group, (if (cycleBreakers groups).contains group.id then
      { group with parentId := none } else group).id = group.id := by
    intro group
    split <;> rfl
  rw [parentIn, detached, withId, find?_map, cut, parentIn, withId]
  have looks : ((fun group : Group => decide (group.id = id)) ∘ fun group : Group =>
      if (cycleBreakers groups).contains group.id then { group with parentId := none } else group) =
        fun group => decide (group.id = id) := funext fun group => by
    rw [Function.comp_apply, sameId]
  rw [looks]
  cases found : groups.find? fun group => group.id = id with
  | none => split <;> rfl
  | some group =>
    rw [Option.map_some, Option.bind_some, Option.bind_some, id_of_withId found]
    split <;> rfl

/-- One member of each cycle is returned, the greatest by stamp and id, and no other group, however
the groups are ordered; without the parents of the returned groups there is no cycle left. -/
theorem cycleBreakers_spec (groups : List Group) (distinct : (groups.map Group.id).Nodup) :
    (∀ done start fuel, groups.length < fuel → climb groups done fuel [] (some start) =
      climb groups done (groups.length + 1) [] (some start)) ∧
    (cycleBreakers groups).Nodup ∧
    (∀ id, id ∈ cycleBreakers groups ↔ OnCycle (parentIn groups) id ∧
      ∃ group ∈ groups, group.id = id ∧
        ∀ other ∈ groups, Above (parentIn groups) id other.id → other.precedes group = true) ∧
    (∀ id, OnCycle (parentIn groups) id →
      ∃! breaker, breaker ∈ cycleBreakers groups ∧ Above (parentIn groups) id breaker) ∧
    (∀ permuted, groups.Perm permuted → (cycleBreakers groups).Perm (cycleBreakers permuted)) ∧
    (cycleBreakers groups = [] ↔ ∀ id, ¬OnCycle (parentIn groups) id) ∧
    ∀ id, ¬OnCycle (parentIn (detached groups)) id := by
  refine ⟨fun done start fuel enough => climb_of_lt done start enough, nodup_cycleBreakers groups,
    fun id => mem_cycleBreakers_iff distinct, fun id cyclic => ?_, fun permuted perm => ?_,
    ⟨fun none id cyclic => ?_, cycleBreakers_eq_nil⟩, fun id => ?_⟩
  · obtain ⟨breaker, member, above⟩ := exists_mem_cycleBreakers cyclic
    refine ⟨breaker, ⟨member, above⟩, ?_⟩
    rintro other ⟨otherMember, otherAbove⟩
    exact eq_of_mem_cycleBreakers otherMember member
      ((onCycle_of_above cyclic otherAbove).2.trans above)
  · refine (perm_ext_iff_of_nodup (nodup_cycleBreakers groups)
      (nodup_cycleBreakers permuted)).mpr fun id => ?_
    rw [mem_cycleBreakers_iff distinct,
      mem_cycleBreakers_iff ((perm.map Group.id).nodup_iff.mp distinct),
      parentIn_of_perm distinct perm]
    simp only [perm.mem_iff]
  · obtain ⟨breaker, member, _⟩ := exists_mem_cycleBreakers cyclic
    rw [none] at member
    cases member
  · rw [parentIn_detached]
    refine not_onCycle_cut (fun node cyclic => ?_) id
    obtain ⟨breaker, member, above⟩ := exists_mem_cycleBreakers cyclic
    exact ⟨breaker, above, contains_iff_mem.mpr member⟩

end Distinct

/-- Two groups that are each other's parent. -/
theorem cycleBreakers_spec_pair :
    cycleBreakers [⟨1, "a", some 2, none, 10, ""⟩, ⟨2, "b", some 1, none, 10, ""⟩] = [2] ∧
      (cycleBreakers [⟨1, "a", some 2, none, 10, ""⟩, ⟨2, "b", some 1, none, 10, ""⟩]).Nodup :=
  ⟨by decide, (cycleBreakers_spec _ (by decide)).2.1⟩

end Group

end Oryxis

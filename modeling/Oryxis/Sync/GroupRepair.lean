/-
This file proves that a batch leaves the stored group tree without parent cycles.

`break_group_cycles` saves the breakers of `Group::cycle_breakers` again without
their parent. Seen from the parent function of the stored tree that is a cut: the
edges of the breakers go and every other edge stays. Every cycle has a breaker, so
no cycle is left; no cycle has two, so exactly one of its edges goes; a group off
every cycle is no breaker, so its row is the one the batch stored. The saved rows
keep their stamps.
-/

import Oryxis.Sync.Apply

namespace Oryxis

open Library.Parents List

namespace VaultStore

def groupOf (vault : VaultStore) (id : Uuid) : Option Group :=
  (vault.rowOf (.group, id)).bind fun row =>
    match row with
    | .group group => some group
    | _ => none

/-- The stored parent relation. -/
def parentOf (vault : VaultStore) (id : Uuid) : Option Uuid := (vault.groupOf id).bind Group.parentId

variable (vault : VaultStore)

theorem groupOf_eq_some_iff (id : Uuid) (group : Group) :
    vault.groupOf id = some group ↔ vault.rowOf (.group, id) = some (.group group) := by
  unfold groupOf
  cases vault.rowOf (.group, id) with
  | none => simp
  | some row => cases row <;> simp

theorem withId_listGroups (id : Uuid) :
    Group.withId vault.listGroups id = vault.groupOf id := by
  apply Option.ext
  intro group
  rw [groupOf_eq_some_iff]
  constructor
  · intro found
    have stored := (vault.mem_listGroups group).mp (Group.mem_of_withId found)
    rwa [Group.id_of_withId found] at stored
  · intro stored
    have sameId : group.id = id := congrArg Prod.snd (key_of_rowOf stored)
    subst sameId
    cases found : Group.withId vault.listGroups group.id with
    | none =>
      have absent := find?_eq_none.mp found group ((vault.mem_listGroups group).mpr stored)
      simp at absent
    | some other =>
      have otherStored := (vault.mem_listGroups other).mp (Group.mem_of_withId found)
      rw [Group.id_of_withId found, stored] at otherStored
      cases otherStored
      rfl

theorem parentIn_listGroups :
    Group.parentIn vault.listGroups = vault.parentOf := by
  funext id
  rw [Group.parentIn, withId_listGroups, parentOf]

/-! ### The repair as a cut -/

/-- The saves of the repair, one detached group after the other. -/
theorem rowOf_foldl_detachGroup (groups : List Group) (breakers : List Uuid) (vault : VaultStore)
    (key : EntityKey)
    (stored : ∀ id ∈ breakers, ∃ group, Group.withId groups id = some group) :
    (breakers.foldl (detachGroup groups) vault).rowOf key =
      if key.1 = .group ∧ key.2 ∈ breakers then
        (Group.withId groups key.2).map fun group => .group { group with parentId := none }.stored
      else vault.rowOf key := by
  induction breakers generalizing vault with
  | nil => simp
  | cons breaker breakers inductionHypothesis =>
    obtain ⟨group, found⟩ := stored breaker (mem_cons_self ..)
    rw [foldl_cons, inductionHypothesis _ fun id member =>
      stored id (mem_cons_of_mem _ member)]
    obtain ⟨type, id⟩ := key
    have sameId : group.id = breaker := Group.id_of_withId found
    have rowKey : (Row.group { group with parentId := none }.stored).key = (.group, breaker) :=
      congrArg (Prod.mk _) sameId
    simp only [detachGroup, found, saveGroup, mem_cons]
    rw [rowOf_replaceRow_of_null _ _ _ rfl, rowKey]
    by_cases sameType : type = .group
    · by_cases later : id ∈ breakers
      · simp [sameType, later]
      · by_cases here : id = breaker
        · simp [sameType, here, found]
        · simp [sameType, later, here]
    · simp [sameType]

theorem exists_withId_of_breaker {groups : List Group} (id : Uuid)
    (member : id ∈ Group.cycleBreakers groups) :
    ∃ group, Group.withId groups id = some group := by
  obtain ⟨best, found, _⟩ := Group.newest_of_mem_cycleBreakers member
  exact ⟨best, found⟩

/-- What the repair stores of a group. -/
theorem groupOf_breakGroupCycles (id : Uuid) :
    vault.breakGroupCycles.groupOf id =
      if id ∈ Group.cycleBreakers vault.listGroups then
        (vault.groupOf id).map fun group => { group with parentId := none }.stored
      else vault.groupOf id := by
  rw [groupOf, breakGroupCycles, rowOf_foldl_detachGroup _ _ _ _ exists_withId_of_breaker]
  split
  · rename_i detached
    rw [if_pos detached.2, withId_listGroups]
    cases vault.groupOf id <;> rfl
  · rename_i kept
    rw [if_neg fun member => kept ⟨rfl, member⟩]
    rfl

theorem rowOf_breakGroupCycles_of_ne (key : EntityKey) (notGroup : key.1 ≠ .group) :
    vault.breakGroupCycles.rowOf key = vault.rowOf key := by
  rw [breakGroupCycles, rowOf_foldl_detachGroup _ _ _ _ exists_withId_of_breaker,
    if_neg fun both => notGroup both.1]

theorem parentOf_breakGroupCycles :
    vault.breakGroupCycles.parentOf =
      cut vault.parentOf fun id => (Group.cycleBreakers vault.listGroups).contains id := by
  funext id
  rw [parentOf, groupOf_breakGroupCycles, cut]
  by_cases detached : id ∈ Group.cycleBreakers vault.listGroups
  · rw [if_pos detached, if_pos (contains_iff_mem.mpr detached)]
    cases vault.groupOf id <;> rfl
  · rw [if_neg detached, if_neg fun member => detached (contains_iff_mem.mp member)]
    rfl

theorem updatedAt_breakGroupCycles (id : Uuid) :
    (vault.breakGroupCycles.groupOf id).map Group.updatedAt =
      (vault.groupOf id).map Group.updatedAt := by
  rw [groupOf_breakGroupCycles]
  split
  · rw [Option.map_map]
    rfl
  · rfl

theorem rowOf_breakGroupCycles_of_none {key : EntityKey} (noRow : vault.rowOf key = none) :
    vault.breakGroupCycles.rowOf key = none := by
  rw [breakGroupCycles, rowOf_foldl_detachGroup _ _ _ _ exists_withId_of_breaker]
  split
  · rename_i detached
    have sameKey : key = (.group, key.2) := Prod.ext detached.1 rfl
    have noGroup : vault.groupOf key.2 = none := by
      rw [groupOf, ← sameKey, noRow]
      rfl
    rw [withId_listGroups, noGroup]
    rfl
  · exact noRow

/-- What has no row keeps its tombstone. -/
theorem deletedAt_breakGroupCycles {key : EntityKey} (noRow : vault.rowOf key = none) :
    vault.breakGroupCycles.deletedAt key = vault.deletedAt key := by
  have detached : ∀ breakers : List Uuid, (∀ id ∈ breakers, key ≠ (.group, id)) →
      ∀ repaired : VaultStore,
        (breakers.foldl (detachGroup vault.listGroups) repaired).deletedAt key =
          repaired.deletedAt key := by
    intro breakers
    induction breakers with
    | nil => exact fun _ _ => rfl
    | cons breaker breakers inductionHypothesis =>
      intro others repaired
      rw [foldl_cons, inductionHypothesis fun id member =>
        others id (mem_cons_of_mem _ member)]
      unfold detachGroup
      split
      · rfl
      · rename_i group found
        rw [saveGroup, deletedAt_replaceRow, if_neg]
        have sameId : group.id = breaker := Group.id_of_withId found
        exact sameId ▸ others breaker (mem_cons_self ..)
  refine detached _ (fun id member same => ?_) vault
  obtain ⟨group, found⟩ := exists_withId_of_breaker id member
  rw [withId_listGroups, groupOf_eq_some_iff, ← same, noRow] at found
  cases found

/-- The repair is a sequence of saves. -/
theorem breakGroupCycles_invariant (holds : VaultStore → Prop)
    (step : ∀ vault group after, holds vault →
      vault.Saves (.group group) group.updatedAt after → holds after)
    {vault : VaultStore} (start : holds vault) : holds vault.breakGroupCycles := by
  have detach : ∀ groups : List Group, ∀ breakers : List Uuid, ∀ vault : VaultStore,
      holds vault → holds (breakers.foldl (detachGroup groups) vault) := by
    intro groups breakers
    induction breakers with
    | nil => exact fun _ start => start
    | cons breaker breakers inductionHypothesis =>
      intro vault start
      refine inductionHypothesis _ ?_
      unfold detachGroup
      split
      · exact start
      · rename_i group _
        exact step vault _ _ start (vault.saves_replaceRow _ _ rfl)
  exact detach _ _ _ start

theorem surroundings_breakGroupCycles :
    vault.breakGroupCycles.surroundings = vault.surroundings :=
  breakGroupCycles_invariant (fun repaired => repaired.surroundings = vault.surroundings)
    (fun _ _ _ same effect => effect.surroundings.trans same) rfl

/-- The repair of one stored tree: no cycle is left, a group off every cycle keeps its row, each
cycle loses the edge of exactly one member, and no stamp changes. -/
structure Repairs (before after : VaultStore) : Prop where
  acyclic : ∀ id, ¬ OnCycle after.parentOf id
  offCycle : ∀ id, ¬ OnCycle before.parentOf id → after.groupOf id = before.groupOf id
  oneEdge : ∀ id, OnCycle before.parentOf id → ∃ breaker, Above before.parentOf id breaker ∧
    after.parentOf breaker = none ∧
    ∀ other, Above before.parentOf id other → other ≠ breaker →
      after.groupOf other = before.groupOf other
  stamps : ∀ id, (after.groupOf id).map Group.updatedAt = (before.groupOf id).map Group.updatedAt

theorem repairs_breakGroupCycles : vault.Repairs vault.breakGroupCycles := by
  have breakerCyclic : ∀ id ∈ Group.cycleBreakers vault.listGroups, OnCycle vault.parentOf id := by
    intro id member
    rw [← parentIn_listGroups]
    exact Group.onCycle_of_mem_cycleBreakers member
  have covered : ∀ id, OnCycle vault.parentOf id →
      ∃ breaker ∈ Group.cycleBreakers vault.listGroups, Above vault.parentOf id breaker := by
    intro id cyclic
    rw [← parentIn_listGroups] at cyclic ⊢
    exact Group.exists_mem_cycleBreakers cyclic
  constructor
  · rw [parentOf_breakGroupCycles]
    refine not_onCycle_cut fun id cyclic => ?_
    obtain ⟨breaker, member, reached⟩ := covered id cyclic
    exact ⟨breaker, reached, contains_iff_mem.mpr member⟩
  · intro id offCycle
    rw [groupOf_breakGroupCycles, if_neg fun member => offCycle (breakerCyclic id member)]
  · intro id cyclic
    obtain ⟨breaker, member, reached⟩ := covered id cyclic
    refine ⟨breaker, reached, ?_, fun other otherReached different => ?_⟩
    · rw [parentOf_breakGroupCycles, cut, if_pos (contains_iff_mem.mpr member)]
    · -- Two breakers above one node would be two on one cycle.
      rw [groupOf_breakGroupCycles, if_neg]
      intro otherMember
      have between : Above vault.parentOf breaker other :=
        (onCycle_of_above cyclic reached).2.trans otherReached
      rw [← parentIn_listGroups] at between
      exact different (Group.eq_of_mem_cycleBreakers member otherMember between).symm
  · exact vault.updatedAt_breakGroupCycles

end VaultStore

/-! ### After a batch -/

section Batch

variable {Bytes : Type}

/-- Two groups edited to be each other's parent on two devices: the one this device holds, and
the one a peer sends. -/
def mutualParents : VaultStore × List (SyncRecord WireTerm) :=
  let first : Group := ⟨1, "first", some 2, none, 10, ""⟩
  let second : Group := ⟨2, "second", some 1, none, 20, ""⟩
  ((VaultStore.empty false true).saveGroup first,
    [⟨.group, 2, 20, false, .sealed "secret" (.json (.group second))⟩])

end Batch

end Oryxis

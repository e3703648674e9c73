/-
This file is the folder that a typed path comes to mean, with the folders that are made for it.

A value that is the path of a manual folder means that folder, and one that is only the label
of one means the first with that label, wherever it lies. Anything else is walked down from the
root, segment by segment, through the folders that are there, and from the first that is missing
on all are made. A walk down is the walk up to the root read backwards, so the folder it comes
to has the segments for its path.
-/

import Mathlib.Algebra.Order.BigOperators.Group.List
import Mathlib.Algebra.Order.Group.Nat
import Mathlib.Data.List.Perm.Subperm
import Oryxis.Importers.CsvPlan

namespace Oryxis.Csv

open Library List

variable {Uuid : Type} [DecidableEq Uuid]

/-! ### Paths -/

/-- The pieces between ` / `. -/
def splitPath : Text → List Text
  | [] => [[]]
  | ' ' :: '/' :: ' ' :: rest => [] :: splitPath rest
  | letter :: rest =>
    match splitPath rest with
    | [] => [[letter]]
    | piece :: pieces => (letter :: piece) :: pieces

def segments (path : Text) : List Text :=
  ((splitPath path).map trimmed).filter fun segment => !segment.isEmpty

def joinPath (labels : List Text) : Text := List.intercalate " / ".toList labels

/-- `resolve_path_or_label`, with no folder excluded. -/
def resolvePathOrLabel (groups : List (Group Uuid)) (input : Text) : Option Uuid :=
  let input := trimmed input
  if input.isEmpty then none
  else
    (((manual groups).find? fun group => pathOf groups group.id = input).or
      ((manual groups).find? fun group => group.label = input)).map Group.id

/-- A manual folder of a label under a parent. -/
def isChild (parent : Option Uuid) (label : Text) (group : Group Uuid) : Bool :=
  !group.dynamic && decide (group.parentId = parent) && decide (group.label = label)

def newGroup (newId : List (Group Uuid) → Uuid) (groups : List (Group Uuid))
    (parent : Option Uuid) (label : Text) : Group Uuid := ⟨newId groups, label, parent, false⟩

/-- The folders made for segments below a parent, and the deepest folder. -/
def createSegments (newId : List (Group Uuid) → Uuid) (groups : List (Group Uuid))
    (parent : Option Uuid) : List Text → List (Group Uuid) × Option Uuid
  | [] => ([], parent)
  | label :: labels =>
    match groups.find? (isChild parent label) with
    | some group => createSegments newId groups (some group.id) labels
    | none =>
      let group := newGroup newId groups parent label
      let made := createSegments newId (groups ++ [group]) (some group.id) labels
      (group :: made.1, made.2)

def createPath (newId : List (Group Uuid) → Uuid) (groups : List (Group Uuid)) (path : Text) :
    List (Group Uuid) × Option Uuid := createSegments newId groups none (segments path)

/-- The folders that are made, and the folder that is meant. -/
def resolveOrCreatePath (newId : List (Group Uuid) → Uuid) (groups : List (Group Uuid))
    (input : Text) : List (Group Uuid) × Option Uuid :=
  match resolvePathOrLabel groups input with
  | some id => ([], some id)
  | none => createPath newId groups input

/-- What is drawn for a new folder is the id and the parent of none. -/
def Fresh (newId : List (Group Uuid) → Uuid) : Prop :=
  ∀ groups, ∀ group ∈ groups, group.id ≠ newId groups ∧ group.parentId ≠ some (newId groups)

/-! ### The walk up -/

/-- The folders from one up to the root, the nearest first. -/
inductive WalkUp (groups : List (Group Uuid)) : Option Uuid → List (Group Uuid) → Prop
  | root : WalkUp groups none []
  | under {group : Group Uuid} {chain : List (Group Uuid)} (stored : group ∈ groups)
      (above : WalkUp groups group.parentId chain) : WalkUp groups (some group.id) (group :: chain)

section WalkUp

variable {groups : List (Group Uuid)} {parent : Option Uuid} {chain : List (Group Uuid)}

omit [DecidableEq Uuid] in
theorem WalkUp.mono (leads : WalkUp groups parent chain) {more : List (Group Uuid)}
    (within : groups ⊆ more) : WalkUp more parent chain := by
  induction leads with
  | root => exact .root
  | under stored _ inductionHypothesis => exact .under (within stored) inductionHypothesis

omit [DecidableEq Uuid] in
theorem WalkUp.unique (distinct : (groups.map Group.id).Nodup) (leads : WalkUp groups parent chain)
    {other : List (Group Uuid)} (leadsOther : WalkUp groups parent other) : chain = other := by
  induction leads generalizing other with
  | root =>
    cases leadsOther
    rfl
  | @under group chain stored _ inductionHypothesis =>
    generalize start : some group.id = from_ at leadsOther
    cases leadsOther with
    | root => cases start
    | @under twin rest storedTwin above =>
      have same := inj_on_of_nodup_map distinct stored storedTwin (Option.some.inj start)
      subst same
      rw [inductionHypothesis above]

omit [DecidableEq Uuid] in
theorem WalkUp.of_mem (leads : WalkUp groups parent chain) {group : Group Uuid}
    (member : group ∈ chain) :
    group ∈ groups ∧ ∃ rest, WalkUp groups (some group.id) rest ∧ rest.length ≤ chain.length := by
  induction leads with
  | root => cases member
  | @under first chain stored above inductionHypothesis =>
    rcases mem_cons.mp member with rfl | later
    · exact ⟨stored, _, .under stored above, Nat.le_refl _⟩
    · obtain ⟨inside, rest, leads, shorter⟩ := inductionHypothesis later
      exact ⟨inside, rest, leads, shorter.trans (Nat.le_succ _)⟩

omit [DecidableEq Uuid] in
theorem WalkUp.nodup (distinct : (groups.map Group.id).Nodup) (leads : WalkUp groups parent chain) :
    (chain.map Group.id).Nodup := by
  induction leads with
  | root => exact nodup_nil
  | @under group chain stored above inductionHypothesis =>
    refine nodup_cons.mpr ⟨fun again => ?_, inductionHypothesis⟩
    obtain ⟨twin, member, same⟩ := mem_map.mp again
    obtain ⟨_, rest, leadsTwin, shorter⟩ := above.of_mem member
    rw [same] at leadsTwin
    have lengths := congrArg List.length ((WalkUp.under stored above).unique distinct leadsTwin)
    rw [length_cons] at lengths
    omega

theorem WalkUp.ancestry (distinct : (groups.map Group.id).Nodup)
    (leads : WalkUp groups parent chain) {fuel : Nat} (enough : chain.length ≤ fuel)
    {seen : List Uuid} (fresh : ∀ group ∈ chain, group.id ∉ seen) :
    Csv.ancestry groups fuel seen parent = chain := by
  have nodup := leads.nodup distinct
  induction leads generalizing fuel seen with
  | root => cases fuel <;> rfl
  | @under group chain stored above inductionHypothesis =>
    cases fuel with
    | zero => cases enough
    | succ fuel =>
      obtain ⟨new, others⟩ := forall_mem_cons.mp fresh
      obtain ⟨apart, nodup⟩ := nodup_cons.mp nodup
      rw [Csv.ancestry, if_neg new, find?_of_nodup distinct stored]
      refine congrArg (group :: ·) (inductionHypothesis (Nat.le_of_succ_le_succ enough) ?_ nodup)
      intro other member again
      rcases mem_cons.mp again with same | known
      · exact apart (same ▸ mem_map_of_mem member)
      · exact others other member known

/-- The path of a folder is made of the labels down to it. -/
theorem WalkUp.pathOf (distinct : (groups.map Group.id).Nodup) {id : Uuid}
    (leads : WalkUp groups (some id) chain) :
    Csv.pathOf groups id = joinPath (chain.map Group.label).reverse := by
  have within : chain.map Group.id ⊆ groups.map Group.id := by
    intro id member
    obtain ⟨group, inside, rfl⟩ := mem_map.mp member
    exact mem_map_of_mem (leads.of_mem inside).1
  have shorter := ((leads.nodup distinct).subperm within).length_le
  rw [length_map, length_map] at shorter
  rw [Csv.pathOf, leads.ancestry distinct shorter fun _ _ => not_mem_nil, joinPath]

end WalkUp

/-! ### The walk down -/

section Walk

variable {newId : List (Group Uuid) → Uuid} {groups : List (Group Uuid)} {parent : Option Uuid}

omit [DecidableEq Uuid] in
theorem nodup_newGroup (fresh : Fresh newId) (distinct : (groups.map Group.id).Nodup)
    (label : Text) : ((groups ++ [newGroup newId groups parent label]).map Group.id).Nodup := by
  rw [map_append]
  refine nodup_append.mpr
    ⟨distinct, nodup_singleton _, fun id known other isNew same => ?_⟩
  obtain ⟨group, member, rfl⟩ := mem_map.mp known
  exact (fresh groups group member).1 (same.trans (mem_singleton.mp isNew))

omit [DecidableEq Uuid] in
/-- Nothing lies below a new folder. -/
theorem unused_newGroup (fresh : Fresh newId)
    (known : ∀ id, parent = some id → ∃ group ∈ groups, group.id = id) (label : Text) :
    ∀ group ∈ groups ++ [newGroup newId groups parent label],
      group.parentId ≠ some (newId groups) := by
  refine forall_mem_append.mpr ⟨fun group member => (fresh groups group member).2, ?_⟩
  refine forall_mem_singleton.mpr fun loops => ?_
  obtain ⟨group, member, same⟩ := known _ loops
  exact (fresh groups group member).1 same

/-- Below a folder that has nothing below it everything is made. -/
theorem createSegments_all (fresh : Fresh newId)
    (unused : ∀ group ∈ groups, group.parentId ≠ parent)
    (known : ∀ id, parent = some id → ∃ group ∈ groups, group.id = id) (labels : List Text) :
    (createSegments newId groups parent labels).1.map Group.label = labels := by
  induction labels generalizing groups parent with
  | nil => rfl
  | cons label labels inductionHypothesis =>
    have none : groups.find? (isChild parent label) = none := by
      refine find?_eq_none.mpr fun group member child => unused group member ?_
      rw [isChild, Bool.and_eq_true, Bool.and_eq_true] at child
      exact of_decide_eq_true child.1.2
    rw [createSegments, none]
    refine congrArg (label :: ·) (inductionHypothesis (unused_newGroup fresh known label) ?_)
    rintro id ⟨⟩
    exact ⟨_, mem_append_right _ (mem_singleton_self _), rfl⟩

/-- What a walk down comes to: the folders it makes are the last segments, from one on that no
folder has below the folder reached, and the walk up from the deepest folder has all segments. -/
structure Made (groups : List (Group Uuid)) (above labels : List Text) (created : List (Group Uuid))
    (deepest : Option Uuid) : Prop where
  distinct : ((groups ++ created).map Group.id).Nodup
  walk : ∃ chain, WalkUp (groups ++ created) deepest chain ∧
    (chain.map Group.label).reverse = above ++ labels
  missing : ∃ found parent chain, labels = found ++ created.map Group.label ∧
    WalkUp groups parent chain ∧ (chain.map Group.label).reverse = above ++ found ∧
    ∀ label rest, created.map Group.label = label :: rest →
      ∀ group ∈ groups, isChild parent label group = false

theorem createSegments_made (fresh : Fresh newId) (distinct : (groups.map Group.id).Nodup)
    {chain : List (Group Uuid)} (walk : WalkUp groups parent chain) (labels : List Text) :
    Made groups (chain.map Group.label).reverse labels (createSegments newId groups parent labels).1
        (createSegments newId groups parent labels).2 ∧
      createSegments newId (groups ++ (createSegments newId groups parent labels).1) parent labels =
        ([], (createSegments newId groups parent labels).2) := by
  induction labels generalizing groups parent chain with
  | nil =>
    refine ⟨⟨?_, ⟨chain, ?_, (append_nil _).symm⟩, [], parent, chain, rfl, walk,
      (append_nil _).symm, fun _ _ none => by cases none⟩, rfl⟩ <;>
    rw [createSegments, append_nil]
    · exact distinct
    · exact walk
  | cons label labels inductionHypothesis =>
    cases found : groups.find? (isChild parent label) with
    | some group =>
      have child := find?_some found
      rw [isChild, Bool.and_eq_true, Bool.and_eq_true] at child
      obtain ⟨⟨_, isParent⟩, isLabel⟩ := child
      have below : WalkUp groups (some group.id) (group :: chain) :=
        .under (mem_of_find?_eq_some found) (of_decide_eq_true isParent ▸ walk)
      have labelled : ((group :: chain).map Group.label).reverse =
          (chain.map Group.label).reverse ++ [label] := by
        rw [map_cons, reverse_cons, of_decide_eq_true isLabel]
      obtain ⟨made, again⟩ := inductionHypothesis distinct below
      obtain ⟨later, ⟨top, walks, whole⟩, front, deep, passed, split, reached, same, new⟩ := made
      rw [labelled, append_assoc] at whole same
      have step : ∀ more, createSegments newId (groups ++ more) parent (label :: labels) =
          createSegments newId (groups ++ more) (some group.id) labels := by
        intro more
        rw [createSegments, find?_append, found]
        rfl
      have here := step []
      rw [append_nil] at here
      rw [here, step]
      exact ⟨⟨later, ⟨top, walks, whole⟩, label :: front, deep, passed,
        congrArg (label :: ·) split, reached, same, new⟩, again⟩
    | none =>
      have known : ∀ id, parent = some id → ∃ group ∈ groups, group.id = id := by
        rintro id rfl
        cases walk with
        | under stored _ => exact ⟨_, stored, rfl⟩
      have isNew : newGroup newId groups parent label ∈
          groups ++ [newGroup newId groups parent label] :=
        mem_append_right _ (mem_singleton_self _)
      have under : WalkUp (groups ++ [newGroup newId groups parent label])
          (some (newGroup newId groups parent label).id)
          (newGroup newId groups parent label :: chain) :=
        .under isNew (walk.mono (subset_append_left _ _))
      have all := createSegments_all fresh (unused_newGroup fresh known label)
        (fun id same => ⟨_, isNew, Option.some.inj same⟩) labels
      obtain ⟨⟨later, ⟨top, walks, whole⟩, _⟩, again⟩ :=
        inductionHypothesis (nodup_newGroup fresh distinct label) under
      rw [createSegments, found]
      dsimp only
      rw [append_assoc, singleton_append] at later walks again
      refine ⟨⟨later, ⟨top, walks, ?_⟩, [], parent, chain, congrArg (label :: ·) all.symm, walk,
        (append_nil _).symm, fun other rest same group member => ?_⟩, ?_⟩
      · rw [whole, map_cons, reverse_cons, append_assoc]
        rfl
      · obtain rfl : label = other := (cons.inj same).1
        exact Bool.eq_false_iff.mpr (find?_eq_none.mp found group member)
      · have self : isChild parent label (newGroup newId groups parent label) = true := by
          simp [isChild, newGroup]
        rw [createSegments, find?_append, found, Option.none_or,
          find?_cons_of_pos self]
        exact again

/-- What a value means as it stands: a manual folder of that path, else one of that label. -/
theorem resolvePathOrLabel_eq_some {input : Text} {id : Uuid}
    (resolved : resolvePathOrLabel groups input = some id) :
    ∃ group ∈ manual groups, group.id = id ∧ (pathOf groups id = trimmed input ∨
      (∀ other ∈ manual groups, pathOf groups other.id ≠ trimmed input) ∧
        group.label = trimmed input) := by
  rw [resolvePathOrLabel] at resolved
  split_ifs at resolved
  obtain ⟨group, found, rfl⟩ := Option.map_eq_some_iff.mp resolved
  rcases Option.or_eq_some_iff.mp found with byPath | ⟨noPath, byLabel⟩
  · exact ⟨group, mem_of_find?_eq_some byPath, rfl,
      .inl (of_decide_eq_true (find?_some byPath :))⟩
  · refine ⟨group, mem_of_find?_eq_some byLabel, rfl,
      .inr ⟨fun other member same => ?_, of_decide_eq_true (find?_some byLabel :)⟩⟩
    exact find?_eq_none.mp noPath other member (decide_eq_true same)

/-- An id above all ids. -/
def nextId (groups : List (Group Nat)) : Nat :=
  (groups.map fun group => group.id + group.parentId.getD 0 + 1).sum

theorem fresh_nextId : Fresh nextId := by
  intro groups group member
  have less : group.id + group.parentId.getD 0 + 1 ≤ nextId groups :=
    single_le_sum (fun _ _ => Nat.zero_le _) _ (mem_map_of_mem member)
  refine ⟨by omega, fun same => ?_⟩
  rw [same, Option.getD_some] at less
  omega

end Walk

end Oryxis.Csv

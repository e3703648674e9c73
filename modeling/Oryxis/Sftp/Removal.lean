/-
This file is the end of a move between hosts: the removal of its sources.

The list is the one the walk of the source built, and it is removed in an order of
its own: every file first, then the directories, the deepest first. A directory is
removed without what is in it, so what came into it meanwhile stays. The first
removal that fails ends the loop.
-/

import Mathlib.Data.List.DropRight
import Mathlib.Data.List.Sort
import Mathlib.Data.String.Basic

namespace Oryxis.Transfer

open List

structure TransferItem where
  src : String
  dst : String
  isDir : Bool
  size : Option Nat
  deriving DecidableEq, Repr

/-- A path without the slashes at its end. -/
def trimSlashes (path : String) : List Char := path.toList.rdropWhile (· = '/')

def depth (path : String) : Nat := (trimSlashes path).count '/'

/-- The key the directories are sorted by: the deepest first, and by path where that is the same. -/
def deeperFirst (first second : TransferItem) : Bool :=
  decide (depth second.src < depth first.src ∨
    (depth second.src = depth first.src ∧ first.src ≤ second.src))

def movedSourceRemovalOrder (sources : List TransferItem) : List (String × Bool) :=
  let files := (sources.filter fun item => !item.isDir).mergeSort fun first second =>
    decide (first.src ≤ second.src)
  let dirs := (sources.filter fun item => item.isDir).mergeSort deeperFirst
  (files ++ dirs).map fun item => (item.src, item.isDir)

/-- A request to the source's host. Neither takes anything along with what it names. -/
inductive Removal
  | removeFile (path : String)
  | removeDir (path : String)

def Removal.of (path : String) (isDir : Bool) : Removal :=
  if isDir then .removeDir path else .removeFile path

def TransferItem.removal (item : TransferItem) : Removal := .of item.src item.isDir

/-- The loop of `removeMovedSources`: the requests it sends, where `answer` is what the host says
to the first, the second and so on, and how many it got done or the path it stopped at. -/
def removeInOrder (answer : Nat → Except String Unit) :
    Nat → List (String × Bool) → List Removal × Except (String × String) Nat
  | removed, [] => ([], .ok removed)
  | removed, (path, isDir) :: rest =>
    match answer removed with
    | .error error => ([Removal.of path isDir], .error (path, error))
    | .ok () =>
      let later := removeInOrder answer (removed + 1) rest
      (Removal.of path isDir :: later.1, later.2)

def removeMovedSources (answer : Nat → Except String Unit) (sources : List TransferItem) :
    List Removal × Except (String × String) Nat :=
  removeInOrder answer 0 (movedSourceRemovalOrder sources)

/-! ### The order -/

/-- A path is below a directory: it goes on, after a slash, from where the directory's ends. -/
def Below (path dir : String) : Prop :=
  ∃ rest, rest ≠ [] ∧ trimSlashes path = trimSlashes dir ++ '/' :: rest

theorem depth_lt_of_below {path dir : String} (below : Below path dir) :
    depth dir < depth path := by
  obtain ⟨rest, -, isPath⟩ := below
  show (trimSlashes dir).count '/' < (trimSlashes path).count '/'
  rw [isPath, count_append, count_cons_self]
  omega

theorem mem_movedSourceRemovalOrder {sources : List TransferItem} {path : String} {isDir : Bool} :
    (path, isDir) ∈ movedSourceRemovalOrder sources ↔
      ∃ item ∈ sources, item.src = path ∧ item.isDir = isDir := by
  simp only [movedSourceRemovalOrder, mem_map, mem_append, mem_mergeSort,
    mem_filter, Prod.mk.injEq]
  constructor
  · rintro ⟨item, ⟨member, -⟩ | ⟨member, -⟩, same⟩
    · exact ⟨item, member, same⟩
    · exact ⟨item, member, same⟩
  · rintro ⟨item, member, same⟩
    refine ⟨item, ?_, same⟩
    cases kind : item.isDir with
    | false => exact .inl ⟨member, rfl⟩
    | true => exact .inr ⟨member, rfl⟩

theorem deeperFirst_trans (first second third : TransferItem) (before : deeperFirst first second)
    (after : deeperFirst second third) : deeperFirst first third := by
  simp only [deeperFirst, decide_eq_true_eq] at before after ⊢
  rcases before with deeper | ⟨level, before⟩
  · exact .inl (by omega)
  · rcases after with deeper | ⟨level', after⟩
    · exact .inl (by omega)
    · exact .inr ⟨by omega, le_trans before after⟩

theorem deeperFirst_total (first second : TransferItem) :
    deeperFirst first second || deeperFirst second first := by
  simp only [deeperFirst, Bool.or_eq_true, decide_eq_true_eq]
  rcases lt_trichotomy (depth first.src) (depth second.src) with less | level | more
  · exact .inr (.inl less)
  · rcases le_total first.src second.src with before | after
    · exact .inl (.inr ⟨level.symm, before⟩)
    · exact .inr (.inr ⟨level, after⟩)
  · exact .inl (.inl more)

theorem depth_le_of_deeperFirst {first second : TransferItem}
    (ordered : deeperFirst first second) : depth second.src ≤ depth first.src := by
  simp only [deeperFirst, decide_eq_true_eq] at ordered
  omega

/-- After a directory there are only directories, and none of them is deeper. -/
theorem pairwise_movedSourceRemovalOrder (sources : List TransferItem) :
    (movedSourceRemovalOrder sources).Pairwise fun first second =>
      first.2 = true → second.2 = true ∧ depth second.1 ≤ depth first.1 := by
  have isFile : ∀ item ∈ (sources.filter fun item => !item.isDir).mergeSort fun first second =>
      decide (first.src ≤ second.src), item.isDir ≠ true := by
    intro item member
    have kind := (mem_filter.mp (mem_mergeSort.mp member)).2
    rwa [Bool.not_eq_true', ← Bool.not_eq_true] at kind
  rw [movedSourceRemovalOrder, pairwise_map, pairwise_append]
  refine ⟨?_, ?_, fun first member second _ isDir => absurd isDir (isFile first member)⟩
  · exact pairwise_of_forall_mem_list fun first member second _ isDir =>
      absurd isDir (isFile first member)
  · have sorted := pairwise_mergeSort deeperFirst_trans deeperFirst_total
      (sources.filter fun item => item.isDir)
    refine (Pairwise.and_mem.mp sorted).imp fun ⟨_, member, ordered⟩ _ => ?_
    exact ⟨(mem_filter.mp (mem_mergeSort.mp member)).2,
      depth_le_of_deeperFirst ordered⟩

/-! ### The requests -/

theorem removeInOrder_prefix (answer : Nat → Except String Unit) (removed : Nat)
    (order : List (String × Bool)) :
    (removeInOrder answer removed order).1 <+: order.map fun entry => .of entry.1 entry.2 := by
  induction order generalizing removed with
  | nil => exact prefix_rfl
  | cons entry rest inductionHypothesis =>
    rw [removeInOrder, map_cons]
    split
    · exact prefix_cons_inj _ |>.mpr (List.nil_prefix)
    · exact prefix_cons_inj _ |>.mpr (inductionHypothesis _)

/-- After the removal of a directory come only those of directories no deeper than it. -/
theorem pairwise_removals (sources : List TransferItem) :
    ((movedSourceRemovalOrder sources).map fun entry => Removal.of entry.1 entry.2).Pairwise
      fun first second => ∀ dir, first = .removeDir dir →
        ∃ other, second = .removeDir other ∧ depth other ≤ depth dir := by
  rw [pairwise_map]
  refine (pairwise_movedSourceRemovalOrder sources).imp fun {first second} ordered dir isDir => ?_
  obtain ⟨path, kind⟩ := first
  cases kind with
  | false => cases isDir
  | true =>
    cases isDir
    obtain ⟨secondIsDir, deep⟩ := ordered rfl
    exact ⟨second.1, by rw [secondIsDir]; rfl, deep⟩

theorem mem_removals {sources : List TransferItem} {request : Removal} :
    request ∈ (movedSourceRemovalOrder sources).map (fun entry => Removal.of entry.1 entry.2) ↔
      ∃ item ∈ sources, item.removal = request := by
  rw [mem_map]
  constructor
  · rintro ⟨⟨path, isDir⟩, member, isRequest⟩
    obtain ⟨item, listed, rfl, rfl⟩ := mem_movedSourceRemovalOrder.mp member
    exact ⟨item, listed, isRequest⟩
  · rintro ⟨item, listed, isRequest⟩
    exact ⟨(item.src, item.isDir), mem_movedSourceRemovalOrder.mpr ⟨item, listed, rfl, rfl⟩,
      isRequest⟩

/-- Only what is listed is removed, and a directory only after everything listed below it. -/
structure Orderly (sources : List TransferItem) (requests : List Removal) : Prop where
  listed : ∀ request ∈ requests, ∃ item ∈ sources, item.removal = request
  belowFirst : ∀ before dir after, requests = before ++ .removeDir dir :: after →
    ∀ item ∈ sources, Below item.src dir → item.removal ∈ before ∧ item.removal ∉ after

theorem orderly_removeMovedSources (answer : Nat → Except String Unit)
    (sources : List TransferItem) : Orderly sources (removeMovedSources answer sources).1 := by
  obtain ⟨unsent, sent⟩ := removeInOrder_prefix answer 0 (movedSourceRemovalOrder sources)
  change (removeMovedSources answer sources).1 ++ unsent = _ at sent
  refine ⟨fun request member => ?_, fun before dir after split item listed below => ?_⟩
  · exact mem_removals.mp (sent ▸ mem_append_left unsent member)
  rw [split, append_assoc, cons_append] at sent
  have ordered := pairwise_removals sources
  have inOrder := mem_removals.mpr ⟨item, listed, rfl⟩
  rw [← sent] at ordered inOrder
  -- What is below the directory is deeper, and so is no longer to come.
  have notLater : ∀ request ∈ Removal.removeDir dir :: (after ++ unsent),
      item.removal ≠ request := by
    intro request member isRequest
    have notDeeper : ∃ other, request = .removeDir other ∧ depth other ≤ depth dir := by
      rcases mem_cons.mp member with isDir | later
      · exact ⟨dir, isDir, le_rfl⟩
      · exact (pairwise_cons.mp (pairwise_append.mp ordered).2.1).1 request later dir rfl
    obtain ⟨other, isOther, deep⟩ := notDeeper
    rw [← isRequest, TransferItem.removal] at isOther
    have isSrc : item.src = other := by
      cases kind : item.isDir with
      | false =>
        rw [kind] at isOther
        cases isOther
      | true =>
        rw [kind] at isOther
        exact Removal.removeDir.inj isOther
    have deeper := depth_lt_of_below below
    rw [isSrc] at deeper
    omega
  constructor
  · rcases mem_append.mp inOrder with earlier | later
    · exact earlier
    · exact absurd rfl (notLater _ later)
  · intro later
    exact notLater _ (mem_cons_of_mem _ (mem_append_left unsent later)) rfl

end Oryxis.Transfer

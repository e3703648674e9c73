/-
This file is the steps a snippet is laid out into for a run, and the check that keeps the editor
from saving a loop.

A step may run another snippet, whose steps then stand in its place. The walk that lays them out
stops at the first missing snippet, install script, loop or step too many. The check is this walk
over the snippet as it would be saved, so it sees a loop only where nothing else stops the walk
in front of it.
-/

import Mathlib.Data.List.Basic
import Mathlib.Order.Basic
import Mathlib.Algebra.Order.Group.Nat

namespace Oryxis.Snippets

open List

abbrev Uuid := Nat

/-! ### The walk -/

/-- A step; the kinds that the walk passes on as they are stand together. -/
inductive SnippetStep (Other : Type)
  | command (text : String)
  | runSnippet (id : Uuid)
  | other (step : Other)

structure Snippet (Other : Type) where
  id : Uuid
  label : String
  command : String
  install : Bool
  steps : List (SnippetStep Other)

variable {Other : Type}

def Snippet.actions (snippet : Snippet Other) : List (SnippetStep Other) :=
  if snippet.steps.isEmpty then [.command snippet.command] else snippet.steps

inductive PlanError
  | cycle (label : String)
  | missing
  | tooLong
  | install (label : String)

def maxPlanSteps : Nat := 1000

def lookup (snippets : List (Snippet Other)) (id : Uuid) : Option (Snippet Other) :=
  snippets.find? fun snippet => snippet.id = id

def offStack (snippets : List (Snippet Other)) (stack : List Uuid) : List (Snippet Other) :=
  snippets.filter fun snippet => snippet.id ∉ stack

theorem length_offStack_lt {snippets : List (Snippet Other)} {stack : List Uuid} {id : Uuid}
    {inner : Snippet Other} (found : lookup snippets id = some inner) (fresh : id ∉ stack) :
    (offStack snippets (id :: stack)).length < (offStack snippets stack).length := by
  unfold lookup at found
  have marked := find?_some found
  have same : inner.id = id := of_decide_eq_true marked
  have narrower : offStack snippets (id :: stack) =
      (offStack snippets stack).filter fun snippet => snippet.id ≠ id := by
    rw [offStack, offStack, filter_filter]
    refine filter_congr fun snippet _ => ?_
    simp only [mem_cons, not_or, ne_eq, Bool.decide_and]
  rw [narrower, length_filter_lt_length_iff_exists]
  refine ⟨inner, mem_filter.mpr ⟨mem_of_find?_eq_some found, ?_⟩, ?_⟩
  · rw [same]
    exact decide_eq_true fresh
  · simp [same]

/-- The walk; the stack holds the ids of the snippets it is inside of. -/
def expand (snippets : List (Snippet Other)) (stack : List Uuid) :
    List (SnippetStep Other) → List (SnippetStep Other) →
      Except PlanError (List (SnippetStep Other))
  | [], out => .ok out
  | .runSnippet id :: rest, out =>
    match found : lookup snippets id with
    | none => .error .missing
    | some inner =>
      if inner.install then .error (.install inner.label)
      else if fresh : id ∈ stack then .error (.cycle inner.label)
      else (expand snippets (id :: stack) inner.actions out).bind (expand snippets stack rest)
  | step :: rest, out =>
    if maxPlanSteps ≤ out.length then .error .tooLong
    else expand snippets stack rest (out ++ [step])
termination_by actions => ((offStack snippets stack).length, actions.length)
decreasing_by
  · exact .left _ _ (length_offStack_lt found fresh)
  · exact .right _ (Nat.lt_succ_self _)
  · exact .right _ (Nat.lt_succ_self _)

def flatten (snippets : List (Snippet Other)) (root : Snippet Other) :
    Except PlanError (List (SnippetStep Other)) :=
  expand snippets [root.id] root.actions []

section

variable (snippets : List (Snippet Other)) (id : Uuid) (label : String)
  (steps : List (SnippetStep Other))

/-- The snippet as it would be saved. -/
def probe : Snippet Other := ⟨id, label, "", false, steps⟩

/-- The snippets after the save. -/
def others : List (Snippet Other) :=
  (snippets.filter fun snippet => snippet.id ≠ id) ++ [probe id label steps]

def wouldCycle : Option String :=
  match flatten (others snippets id label steps) (probe id label steps) with
  | .error (.cycle label) => some label
  | _ => none

end

/-! ### The expansion -/

section

variable (snippets : List (Snippet Other))

/-- What steps expand to: in the place of a step that runs a snippet, which is no install script,
stands what the snippet's steps expand to. -/
inductive Expands : List (SnippetStep Other) → List (SnippetStep Other) → Prop
  | nil : Expands [] []
  | plain {step rest later} (plain : ∀ id, step ≠ .runSnippet id) (expands : Expands rest later) :
    Expands (step :: rest) (step :: later)
  | run {id inner rest front later} (found : lookup snippets id = some inner)
      (allowed : inner.install = false) (inside : Expands inner.actions front)
      (expands : Expands rest later) : Expands (.runSnippet id :: rest) (front ++ later)

/-- Steps reach the snippets they run, and what these reach. -/
inductive Reaches : List (SnippetStep Other) → Uuid → Prop
  | runs {actions id} (member : .runSnippet id ∈ actions) : Reaches actions id
  | through {actions between id inner} (member : .runSnippet between ∈ actions)
      (found : lookup snippets between = some inner) (reaches : Reaches inner.actions id) :
    Reaches actions id

/-- The snippet of an id is there, is no install script and does not reach itself. -/
def Sound (id : Uuid) : Prop :=
  ∃ inner, lookup snippets id = some inner ∧ inner.install = false ∧
    ¬Reaches snippets inner.actions id

/-- No snippet the root reaches is missing, an install script or reaches itself, nor does the
root. -/
structure Clean (root : Snippet Other) : Prop where
  unlooped : ¬Reaches snippets root.actions root.id
  sound : ∀ id, Reaches snippets root.actions id → Sound snippets id

def ReachesLoop (root : Snippet Other) : Prop :=
  Reaches snippets root.actions root.id ∨
    ∃ id inner, Reaches snippets root.actions id ∧ lookup snippets id = some inner ∧
      Reaches snippets inner.actions id

/-- In the order of the expansion a loop is met first, with so many steps used: a step runs a
snippet the walk is inside of, or one whose steps come to that, or this holds behind steps that
expand. -/
inductive LoopFirst : List Uuid → Nat → List (SnippetStep Other) → Prop
  | back {stack used id inner rest} (room : used ≤ maxPlanSteps)
      (found : lookup snippets id = some inner) (allowed : inner.install = false)
      (inside : id ∈ stack) : LoopFirst stack used (.runSnippet id :: rest)
  | deeper {stack used id inner rest} (found : lookup snippets id = some inner)
      (allowed : inner.install = false) (loop : LoopFirst (id :: stack) used inner.actions) :
    LoopFirst stack used (.runSnippet id :: rest)
  | behind {stack used front shown actions} (expands : Expands snippets front shown)
      (loop : LoopFirst stack (used + shown.length) actions) :
    LoopFirst stack used (front ++ actions)

end

/-! ### What the walk does -/

variable {snippets : List (Snippet Other)} {stack : List Uuid} {id : Uuid}
  {inner root : Snippet Other} {step : SnippetStep Other}
  {rest out actions steps : List (SnippetStep Other)}

theorem expand_missing (missing : lookup snippets id = none) :
    expand snippets stack (.runSnippet id :: rest) out = .error .missing := by
  rw [expand]
  split
  · rfl
  · simp_all

theorem expand_found (found : lookup snippets id = some inner) :
    expand snippets stack (.runSnippet id :: rest) out =
      if inner.install then .error (.install inner.label)
      else if id ∈ stack then .error (.cycle inner.label)
      else (expand snippets (id :: stack) inner.actions out).bind
        (expand snippets stack rest) := by
  rw [expand]
  split
  · simp_all
  · rename_i other same
    rw [found] at same
    cases same
    rfl

theorem expand_plain (plain : ∀ id, step ≠ .runSnippet id) :
    expand snippets stack (step :: rest) out =
      if maxPlanSteps ≤ out.length then .error .tooLong
      else expand snippets stack rest (out ++ [step]) := by
  rw [expand]
  exact plain

/-! ### What steps with an expansion reach -/

theorem Reaches.cons (reaches : Reaches snippets rest id) :
    Reaches snippets (step :: rest) id := by
  cases reaches with
  | runs member => exact .runs (mem_cons_of_mem _ member)
  | through member found inside => exact .through (mem_cons_of_mem _ member) found inside

theorem reaches_plain (plain : ∀ id, step ≠ .runSnippet id)
    (reaches : Reaches snippets (step :: rest) id) : Reaches snippets rest id := by
  have behind : ∀ {run}, .runSnippet run ∈ step :: rest → .runSnippet run ∈ rest :=
    fun member => (mem_cons.mp member).resolve_left fun same => plain _ same.symm
  cases reaches with
  | runs member => exact .runs (behind member)
  | through member found inside => exact .through (behind member) found inside

theorem reaches_run {other : Uuid} (found : lookup snippets id = some inner)
    (reaches : Reaches snippets (.runSnippet id :: rest) other) :
    other = id ∨ Reaches snippets inner.actions other ∨ Reaches snippets rest other := by
  cases reaches with
  | runs member =>
    exact (mem_cons.mp member).imp SnippetStep.runSnippet.inj fun later => .inr (.runs later)
  | through member foundOther inside =>
    rcases mem_cons.mp member with same | later
    · rw [SnippetStep.runSnippet.inj same, found] at foundOther
      cases foundOther
      exact .inr (.inl inside)
    · exact .inr (.inr (.through later foundOther inside))

theorem not_reaches_nil : ¬Reaches snippets [] id := by
  intro reaches
  cases reaches with
  | runs member => cases member
  | through member => cases member

theorem Expands.sound (expands : Expands snippets actions steps) {id : Uuid}
    (reaches : Reaches snippets actions id) : Sound snippets id := by
  induction expands generalizing id with
  | nil => exact absurd reaches not_reaches_nil
  | plain plain _ inductionHypothesis => exact inductionHypothesis (reaches_plain plain reaches)
  | @run run inner _ _ _ found allowed _ _ insideHypothesis inductionHypothesis =>
    rcases reaches_run found reaches with rfl | inside | later
    · refine ⟨inner, found, allowed, fun around => ?_⟩
      -- A snippet that reaches itself would be reached, so sound, so not reach itself.
      obtain ⟨other, same, -, none⟩ := insideHypothesis around
      rw [found] at same
      cases same
      exact none around
    · exact insideHypothesis inside
    · exact inductionHypothesis later

/-- Where all that is reached is sound and off the stack, there is an expansion. -/
theorem exists_expands
    (sound : ∀ id, Reaches snippets actions id → id ∉ stack ∧ Sound snippets id) :
    ∃ steps, Expands snippets actions steps := by
  have bounded : (offStack snippets stack).length < (offStack snippets stack).length + 1 :=
    Nat.lt_succ_self _
  generalize (offStack snippets stack).length + 1 = bound at bounded
  induction bound generalizing stack actions with
  | zero => cases bounded
  | succ bound inductionHypothesis =>
    induction actions with
    | nil => exact ⟨[], .nil⟩
    | cons step rest restHypothesis =>
      obtain ⟨later, expands⟩ := restHypothesis fun id reaches => sound id reaches.cons
      by_cases runs : ∃ id, step = .runSnippet id
      · obtain ⟨id, rfl⟩ := runs
        obtain ⟨fresh, inner, found, allowed, none⟩ := sound id (.runs mem_cons_self)
        have deeper : ∀ other, Reaches snippets inner.actions other →
            other ∉ id :: stack ∧ Sound snippets other := by
          intro other reaches
          obtain ⟨off, isSound⟩ := sound other (.through mem_cons_self found reaches)
          refine ⟨fun member => ?_, isSound⟩
          rcases mem_cons.mp member with rfl | below
          · exact none reaches
          · exact off below
        obtain ⟨front, inside⟩ := inductionHypothesis deeper
          (Nat.lt_of_lt_of_le (length_offStack_lt found fresh) (Nat.le_of_lt_succ bounded))
        exact ⟨front ++ later, .run found allowed inside expands⟩
      · exact ⟨step :: later, .plain (fun id same => runs ⟨id, same⟩) expands⟩

/-! ### What the walk comes to -/

/-- Over steps with an expansion that is not too long the walk gets, unless it comes to a snippet it
is inside of. -/
theorem expand_of_expands (expands : Expands snippets actions steps)
    (short : out.length + steps.length ≤ maxPlanSteps) :
    expand snippets stack (actions ++ rest) out = expand snippets stack rest (out ++ steps) ∨
      (∃ label, expand snippets stack (actions ++ rest) out = .error (.cycle label)) ∧
        ∃ id ∈ stack, Reaches snippets actions id := by
  induction expands generalizing stack out rest with
  | nil =>
    rw [append_nil]
    exact .inl rfl
  | @plain step _ later plain _ inductionHypothesis =>
    rw [length_cons] at short
    have after := @inductionHypothesis stack rest (out ++ [step]) (by
      rw [length_append, length_singleton]
      omega)
    rw [append_assoc] at after
    rw [cons_append, expand_plain plain, if_neg (by omega)]
    exact after.imp_right fun ⟨cycle, other, member, reaches⟩ =>
      ⟨cycle, other, member, reaches.cons⟩
  | @run id inner _ front later found allowed inside _ insideHypothesis inductionHypothesis =>
    rw [length_append] at short
    rw [cons_append, expand_found found, allowed, if_neg Bool.false_ne_true]
    split_ifs with known
    · exact .inr ⟨⟨inner.label, rfl⟩, id, known, .runs mem_cons_self⟩
    have walked := @insideHypothesis (id :: stack) [] out (by omega)
    rw [append_nil] at walked
    rcases walked with whole | ⟨⟨label, cycle⟩, other, member, reaches⟩
    · have after := @inductionHypothesis stack rest (out ++ front) (by
        rw [length_append]
        omega)
      rw [append_assoc] at after
      rw [whole, expand]
      exact after.imp_right fun ⟨cycle, other, member, reaches⟩ =>
        ⟨cycle, other, member, reaches.cons⟩
    · refine .inr ⟨⟨label, by rw [cycle]; rfl⟩, other, ?_, .through mem_cons_self found reaches⟩
      refine (mem_cons.mp member).resolve_left ?_
      rintro rfl
      obtain ⟨_, same, -, none⟩ := inside.sound reaches
      rw [found] at same
      cases same
      exact none reaches

/-- A walk that ends has passed an expansion, and one that ends at a loop met it first. -/
theorem expand_spec (short : out.length ≤ maxPlanSteps) :
    (∀ steps, expand snippets stack actions out = .ok steps →
      ∃ more, Expands snippets actions more ∧ steps = out ++ more ∧
        steps.length ≤ maxPlanSteps ∧ ∀ id ∈ stack, ¬Reaches snippets actions id) ∧
      ∀ label, expand snippets stack actions out = .error (.cycle label) →
        LoopFirst snippets stack out.length actions := by
  induction stack, actions, out using expand.induct snippets with
  | case1 stack out =>
    rw [expand]
    refine ⟨?_, nofun⟩
    rintro _ ⟨⟩
    exact ⟨[], .nil, (append_nil out).symm, short, fun _ _ => not_reaches_nil⟩
  | case2 stack id rest out missing =>
    rw [expand_missing missing]
    exact ⟨nofun, nofun⟩
  | case3 stack id rest out inner found install =>
    rw [expand_found found, if_pos install]
    exact ⟨nofun, nofun⟩
  | case4 stack id rest out inner found allowed known =>
    rw [expand_found found, if_neg allowed, if_pos known]
    exact ⟨nofun, fun _ _ => .back short found (Bool.eq_false_iff.mpr allowed) known⟩
  | case5 stack id rest out inner found allowed fresh insideHypothesis inductionHypothesis =>
    have permitted : inner.install = false := Bool.eq_false_iff.mpr allowed
    rw [expand_found found, if_neg allowed, if_neg fresh]
    obtain ⟨insideOk, insideCycle⟩ := insideHypothesis short
    cases inside : expand snippets (id :: stack) inner.actions out with
    | error error =>
      refine ⟨nofun, ?_⟩
      rintro label ⟨⟩
      exact .deeper found permitted (insideCycle label inside)
    | ok between =>
      obtain ⟨front, expandsInside, rfl, fewer, offInside⟩ := insideOk between inside
      obtain ⟨after, cycle⟩ := inductionHypothesis (out ++ front) fewer
      refine ⟨fun steps walked => ?_, fun label walked => ?_⟩
      · obtain ⟨later, expands, rfl, few, off⟩ := after steps walked
        refine ⟨front ++ later, .run found permitted expandsInside expands, append_assoc .., few,
          fun other member reaches => ?_⟩
        rcases reaches_run found reaches with rfl | deeper | behind
        · exact fresh member
        · exact offInside other (mem_cons_of_mem _ member) deeper
        · exact off other member behind
      · have loop := cycle label walked
        rw [length_append, ← append_nil front] at loop
        show LoopFirst snippets stack out.length ([.runSnippet id] ++ rest)
        exact .behind (.run found permitted expandsInside .nil) loop
  | case6 stack step rest out plain long =>
    rw [expand_plain plain, if_pos long]
    exact ⟨nofun, nofun⟩
  | case7 stack step rest out plain room inductionHypothesis =>
    rw [expand_plain plain, if_neg room]
    have one : (out ++ [step]).length = out.length + 1 := length_append ..
    obtain ⟨after, cycle⟩ := inductionHypothesis (by omega)
    refine ⟨fun steps walked => ?_, fun label walked => ?_⟩
    · obtain ⟨later, expands, rfl, few, off⟩ := after steps walked
      exact ⟨step :: later, .plain plain expands, append_assoc .., few,
        fun other member reaches => off other member (reaches_plain plain reaches)⟩
    · show LoopFirst snippets stack out.length ([step] ++ rest)
      exact .behind (.plain plain .nil) (one ▸ cycle label walked)

theorem LoopFirst.room {used : Nat} (loop : LoopFirst snippets stack used actions) :
    used ≤ maxPlanSteps := by
  induction loop with
  | back room => exact room
  | deeper _ _ _ inductionHypothesis => exact inductionHypothesis
  | behind _ _ inductionHypothesis => exact Nat.le_of_add_right_le inductionHypothesis

theorem Reaches.append (reaches : Reaches snippets actions id)
    (front : List (SnippetStep Other)) : Reaches snippets (front ++ actions) id := by
  induction front with
  | nil => exact reaches
  | cons _ _ inductionHypothesis => exact inductionHypothesis.cons

/-- A loop that is met goes back into the stack, or there is one ahead. -/
theorem LoopFirst.reaches {used : Nat} (loop : LoopFirst snippets stack used actions) :
    (∃ id ∈ stack, Reaches snippets actions id) ∨ ∃ id inner, Reaches snippets actions id ∧
      lookup snippets id = some inner ∧ Reaches snippets inner.actions id := by
  induction loop with
  | back _ _ _ inside => exact .inl ⟨_, inside, .runs mem_cons_self⟩
  | deeper found _ _ inductionHypothesis =>
    rcases inductionHypothesis with ⟨other, member, reaches⟩ | ⟨other, named, reaches, around⟩
    · rcases mem_cons.mp member with rfl | below
      · exact .inr ⟨_, _, .runs mem_cons_self, found, reaches⟩
      · exact .inl ⟨other, below, .through mem_cons_self found reaches⟩
    · exact .inr ⟨other, named, .through mem_cons_self found reaches, around⟩
  | behind _ _ inductionHypothesis =>
    rcases inductionHypothesis with ⟨other, member, reaches⟩ | ⟨other, named, reaches, around⟩
    · exact .inl ⟨other, member, reaches.append _⟩
    · exact .inr ⟨other, named, reaches.append _, around⟩

theorem expand_of_loopFirst {used : Nat} (loop : LoopFirst snippets stack used actions)
    (same : out.length = used) :
    ∃ label, expand snippets stack actions out = .error (.cycle label) := by
  induction loop generalizing out with
  | back _ found allowed inside =>
    rw [expand_found found, allowed, if_neg Bool.false_ne_true, if_pos inside]
    exact ⟨_, rfl⟩
  | deeper found allowed _ inductionHypothesis =>
    rw [expand_found found, allowed, if_neg Bool.false_ne_true]
    split_ifs
    · exact ⟨_, rfl⟩
    · obtain ⟨label, cycle⟩ := inductionHypothesis same
      exact ⟨label, by rw [cycle]; rfl⟩
  | behind expands loop inductionHypothesis =>
    subst same
    rcases expand_of_expands expands loop.room with whole | ⟨cycle, -⟩
    · rw [whole]
      exact inductionHypothesis (length_append ..)
    · exact cycle

/-! ### Main results -/

theorem flatten_eq_ok_iff : flatten snippets root = .ok steps ↔
    Clean snippets root ∧ Expands snippets root.actions steps ∧ steps.length ≤ maxPlanSteps := by
  rw [flatten]
  constructor
  · intro walked
    obtain ⟨more, expands, rfl, few, off⟩ := (expand_spec (Nat.zero_le _)).1 _ walked
    exact ⟨⟨off root.id (mem_singleton_self _), fun id reaches => expands.sound reaches⟩, expands,
      few⟩
  · rintro ⟨clean, expands, few⟩
    have walked := @expand_of_expands _ snippets [root.id] [] [] _ _ expands (by
      rwa [length_nil, Nat.zero_add])
    rw [append_nil] at walked
    rcases walked with whole | ⟨-, id, member, reaches⟩
    · rw [whole, expand]
      rfl
    · rw [mem_singleton.mp member] at reaches
      exact absurd reaches clean.unlooped

theorem Clean.exists_expands (clean : Clean snippets root) :
    ∃ steps, Expands snippets root.actions steps := by
  refine @Snippets.exists_expands _ snippets [root.id] root.actions fun id reaches =>
    ⟨fun member => ?_, clean.sound id reaches⟩
  rw [mem_singleton.mp member] at reaches
  exact clean.unlooped reaches

section

variable (snippets : List (Snippet Other)) (root : Snippet Other) (id : Uuid) (label : String)
  (steps : List (SnippetStep Other))

theorem isSome_wouldCycle_iff : (wouldCycle snippets id label steps).isSome ↔
    LoopFirst (others snippets id label steps) [id] 0 (probe id label steps).actions := by
  rw [wouldCycle]
  constructor
  · intro seen
    split at seen
    · rename_i cycle
      exact (expand_spec (Nat.zero_le _)).2 _ cycle
    · cases seen
  · intro loop
    obtain ⟨name, cycle⟩ := expand_of_loopFirst loop length_nil
    rw [show flatten _ (probe id label steps) = _ from cycle]
    rfl

/-- Layouts are exact, and the check sees the loop a saved snippet reaches where it is met first. -/
theorem flatten_and_wouldCycle_iff :
    ((Clean snippets root → ∃ layout, Expands snippets root.actions layout) ∧
      (∀ layout, flatten snippets root = .ok layout ↔ Clean snippets root ∧
        Expands snippets root.actions layout ∧ layout.length ≤ maxPlanSteps) ∧
      (ReachesLoop (others snippets id label steps) (probe id label steps) →
        (wouldCycle snippets id label steps).isSome)) ↔
      ¬ReachesLoop (others snippets id label steps) (probe id label steps) ∨
        LoopFirst (others snippets id label steps) [id] 0 (probe id label steps).actions := by
  rw [← isSome_wouldCycle_iff, ← imp_iff_not_or]
  exact ⟨fun all => all.2.2,
    fun sees => ⟨Clean.exists_expands, fun _ => flatten_eq_ok_iff, sees⟩⟩

end

/-- The loop stands behind a step that runs a missing snippet. -/
theorem loop_behind_missing_unseen :
    ¬∀ (snippets : List (Snippet Unit)) (id : Uuid) (label : String)
      (steps : List (SnippetStep Unit)),
      ReachesLoop (others snippets id label steps) (probe id label steps) →
        (wouldCycle snippets id label steps).isSome := by
  intro always
  have seen := always [] 1 "a" [.runSnippet 2, .runSnippet 1]
    (.inl (.runs (mem_cons_of_mem _ mem_cons_self)))
  have walked : flatten (others [] 1 "a" [.runSnippet 2, .runSnippet 1])
      (probe 1 "a" [.runSnippet 2, .runSnippet 1]) =
        (.error .missing : Except PlanError (List (SnippetStep Unit))) :=
    expand_missing rfl
  rw [wouldCycle, walked] at seen
  cases seen

/-- The check raises no false alarm. -/
theorem reachesLoop_of_wouldCycle {snippets : List (Snippet Other)} {id : Uuid} {label : String}
    {steps : List (SnippetStep Other)} (refused : (wouldCycle snippets id label steps).isSome) :
    ReachesLoop (others snippets id label steps) (probe id label steps) := by
  refine ((isSome_wouldCycle_iff ..).mp refused).reaches.imp_left ?_
  rintro ⟨other, member, reaches⟩
  cases mem_singleton.mp member
  exact reaches

theorem reachesLoop_own : ReachesLoop (others ([] : List (Snippet Unit)) 1 "a" [.runSnippet 1])
    (probe 1 "a" [.runSnippet 1]) :=
  reachesLoop_of_wouldCycle ((isSome_wouldCycle_iff ..).mpr
    (.back (Nat.zero_le _) rfl rfl mem_cons_self))

end Oryxis.Snippets

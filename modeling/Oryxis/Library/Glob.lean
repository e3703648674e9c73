/-
This file is patterns made of single letters and of runs, and the search that decides
whether a text fits one. The search keeps one place to come back to: the last run it
passed, and how much of the text that run has taken. Earlier runs need no second look,
since whatever they could still take the last one can take for them.
-/

import Mathlib.Data.List.Infix

namespace Oryxis.Library

open List

variable {Letter : Type}

/-- A piece of a pattern: any run of letters, or one letter of a kind. -/
inductive Piece (Letter : Type) where
  | run
  | one (holds : Letter → Bool)

def Piece.isRun : Piece Letter → Bool
  | run => true
  | one _ => false

/-- What a pattern describes. -/
def Fits : List (Piece Letter) → List Letter → Prop
  | [], text => text = []
  | .run :: pieces, text => ∃ rest, rest <:+ text ∧ Fits pieces rest
  | .one _ :: _, [] => False
  | .one holds :: pieces, letter :: text => holds letter = true ∧ Fits pieces text

/-- The search from a place of the pattern and of the text, and the place to come back to: what
follows the last run, and the text that run has not taken. -/
def search (pieces : List (Piece Letter)) (text : List Letter)
    (back : Option (List (Piece Letter) × List Letter)) : Bool :=
  match text, pieces, back with
  | [], pieces, _ => pieces.all Piece.isRun
  | letter :: text, .run :: pieces, _ =>
    search pieces (letter :: text) (some (pieces, letter :: text))
  | letter :: text, .one holds :: pieces, back =>
    if holds letter then search pieces text back
    else
      match back with
      | some (later, _ :: left) => search later left (some (later, left))
      | _ => false
  | _ :: _, [], some (later, _ :: left) => search later left (some (later, left))
  | _ :: _, [], _ => false
termination_by
  (match back with
    | some (_, left) => max left.length text.length
    | none => text.length + 1, pieces.length)
decreasing_by
  all_goals simp_wf
  all_goals grind

/-! ### What a pattern describes -/

variable {pieces : List (Piece Letter)} {text : List Letter}

theorem fits_run_of_suffix {rest : List Letter} (fits : Fits (.run :: pieces) rest)
    (ends : rest <:+ text) : Fits (.run :: pieces) text := by
  obtain ⟨last, lastEnds, lastFits⟩ := fits
  exact ⟨last, lastEnds.trans ends, lastFits⟩

theorem fits_nil_iff :
    Fits pieces [] ↔ pieces.all Piece.isRun = true := by
  induction pieces with
  | nil => simp [Fits]
  | cons piece pieces hypothesis =>
    cases piece with
    | run => simp [Fits, Piece.isRun, hypothesis]
    | one holds => simp [Fits, Piece.isRun]

/-- Single letters take as many letters of the text as they are. -/
theorem fits_append {ones : List (Piece Letter)} (single : ∀ piece ∈ ones, ¬ piece.isRun)
    (fits : Fits (ones ++ pieces) text) :
    ∃ eaten rest, text = eaten ++ rest ∧ eaten.length = ones.length ∧ Fits pieces rest := by
  induction ones generalizing text with
  | nil => exact ⟨[], text, rfl, rfl, fits⟩
  | cons piece ones hypothesis =>
    cases piece with
    | run => exact absurd rfl (single _ mem_cons_self)
    | one holds =>
      cases text with
      | nil => exact absurd fits id
      | cons letter text =>
        obtain ⟨eaten, rest, rfl, length, restFits⟩ :=
          hypothesis (fun piece mem => single piece (mem_cons_of_mem _ mem)) fits.2
        exact ⟨letter :: eaten, rest, rfl, by rw [length_cons, length, length_cons],
          restFits⟩

/-! ### The search -/

/-- The place to come back to is the last run before the place the search has reached. -/
def Reached (back : Option (List (Piece Letter) × List Letter)) (pieces : List (Piece Letter))
    (text : List Letter) : Prop :=
  ∀ later left, back = some (later, left) → ∃ ones eaten, later = ones ++ pieces ∧
    left = eaten ++ text ∧ eaten.length = ones.length ∧ ∀ piece ∈ ones, ¬ piece.isRun

/-- What is left once the run of the place to come back to has taken one letter more fits. -/
def Resumes (back : Option (List (Piece Letter) × List Letter)) : Prop :=
  ∃ later skipped left, back = some (later, skipped :: left) ∧ Fits (.run :: later) left

theorem reached_here (pieces : List (Piece Letter)) (text : List Letter) :
    Reached (some (pieces, text)) pieces text := by
  rintro later left ⟨⟩
  exact ⟨[], [], rfl, rfl, rfl, by simp⟩

variable {back : Option (List (Piece Letter) × List Letter)} {holds : Letter → Bool}
  {letter : Letter}

theorem Reached.next (reached : Reached back (.one holds :: pieces) (letter :: text)) :
    Reached back pieces text := by
  intro later left here
  obtain ⟨ones, eaten, rfl, rfl, length, single⟩ := reached later left here
  refine ⟨ones ++ [.one holds], eaten ++ [letter], by simp, by simp, by simp [length], ?_⟩
  intro piece mem
  rcases mem_append.mp mem with mem | mem
  · exact single piece mem
  · rw [mem_singleton.mp mem]
    exact Bool.false_ne_true

/-- What an earlier run could still take, a run reached since can take for it. -/
theorem fits_of_resumes (reached : Reached back (.run :: pieces) text) (resumes : Resumes back) :
    Fits (.run :: pieces) text := by
  obtain ⟨later, skipped, left, here, rest, ends, fits⟩ := resumes
  obtain ⟨ones, eaten, rfl, same, length, single⟩ := reached _ _ here
  obtain ⟨taken, after, rfl, takenLength, afterFits⟩ := fits_append single fits
  have afterEnds : after <:+ eaten ++ text :=
    same ▸ ((suffix_append taken after).trans ends).trans (suffix_cons skipped left)
  have shorter : after.length ≤ text.length := by
    have lengths := congrArg List.length same
    have bound := ends.length_le
    simp only [length_append, length_cons] at lengths bound
    omega
  exact fits_run_of_suffix afterFits
    (suffix_of_suffix_length_le afterEnds (suffix_append eaten text) shorter)

variable {later : List (Piece Letter)} {left : List Letter}

theorem resumes_cons_iff {skipped : Letter} :
    Resumes (some (later, skipped :: left)) ↔ Fits (.run :: later) left := by
  constructor
  · rintro ⟨_, _, _, ⟨⟩, fits⟩
    exact fits
  · exact fun fits => ⟨later, skipped, left, rfl, fits⟩

/-- A run takes nothing, or it takes a letter and is come back to. -/
theorem fits_run_iff :
    Fits (.run :: later) left ↔ Fits later left ∨ Resumes (some (later, left)) := by
  constructor
  · rintro ⟨rest, ends, fits⟩
    cases left with
    | nil => exact .inl (suffix_nil.mp ends ▸ fits)
    | cons next left =>
      rcases suffix_cons_iff.mp ends with rfl | ends
      · exact .inl fits
      · exact .inr ⟨later, next, left, rfl, rest, ends, fits⟩
  · rintro (fits | ⟨_, next, rest, ⟨⟩, fits⟩)
    · exact ⟨left, suffix_refl left, fits⟩
    · exact fits_run_of_suffix fits (suffix_cons next rest)

/-- Where the text has ended, no run before can take a letter more. -/
theorem not_resumes_of_end (reached : Reached back pieces []) : ¬ Resumes back := by
  rintro ⟨later, skipped, left, here, rest, ends, fits⟩
  obtain ⟨ones, eaten, rfl, same, length, single⟩ := reached _ _ here
  obtain ⟨taken, after, rfl, takenLength, -⟩ := fits_append single fits
  have lengths := congrArg List.length same
  have bound := ends.length_le
  simp only [length_append, length_cons, length_nil] at lengths bound
  omega

/-- There is nothing to come back to. -/
def Spent (back : Option (List (Piece Letter) × List Letter)) : Prop :=
  ∀ later skipped left, back ≠ some (later, skipped :: left)

theorem search_one_of_hit (hit : holds letter = true) :
    search (.one holds :: pieces) (letter :: text) back = search pieces text back := by
  conv => lhs; unfold search
  exact if_pos hit

theorem search_one_of_miss {skipped : Letter} (miss : ¬ holds letter = true) :
    search (.one holds :: pieces) (letter :: text) (some (later, skipped :: left)) =
      search later left (some (later, left)) := by
  conv => lhs; unfold search
  exact if_neg miss

theorem search_one_of_spent (miss : ¬ holds letter = true) (spent : Spent back) :
    search (.one holds :: pieces) (letter :: text) back = false := by
  conv => lhs; unfold search
  rw [if_neg miss]
  split
  · exact absurd rfl (spent _ _ _)
  · rfl

theorem search_nil_of_spent (spent : Spent back) :
    search [] (letter :: text) back = false := by
  unfold search
  split <;> grind [Spent]

/-- The search finds a fit from where it is, or from where it can come back to. -/
theorem search_iff (pieces : List (Piece Letter)) (text : List Letter)
    (back : Option (List (Piece Letter) × List Letter)) (reached : Reached back pieces text) :
    search pieces text back = true ↔ Fits pieces text ∨ Resumes back := by
  induction pieces, text, back using search.induct with
  | case1 back pieces =>
    rw [search, ← fits_nil_iff]
    exact (or_iff_left (not_resumes_of_end reached)).symm
  | case2 back letter text pieces hypothesis =>
    rw [search, hypothesis (reached_here pieces _), ← fits_run_iff]
    exact (or_iff_left_of_imp (fits_of_resumes reached)).symm
  | case3 letter text holds pieces back hit hypothesis =>
    rw [search_one_of_hit hit, hypothesis reached.next]
    exact or_congr_left (and_iff_right hit).symm
  | case4 letter text holds pieces miss later skipped left hypothesis =>
    rw [search_one_of_miss miss, hypothesis (reached_here later left), ← fits_run_iff,
      resumes_cons_iff]
    exact (or_iff_right fun fits => miss fits.1).symm
  | case5 letter text holds pieces back miss spent =>
    rw [search_one_of_spent miss spent]
    refine iff_of_false Bool.false_ne_true ?_
    rintro (fits | ⟨later, skipped, left, here, -⟩)
    · exact miss fits.1
    · exact spent later skipped left here
  | case6 letter text later skipped left hypothesis =>
    rw [search, hypothesis (reached_here later left), ← fits_run_iff, resumes_cons_iff]
    exact (or_iff_right (cons_ne_nil letter text)).symm
  | case7 back letter text spent =>
    rw [search_nil_of_spent spent]
    refine iff_of_false Bool.false_ne_true ?_
    rintro (fits | ⟨later, skipped, left, here, -⟩)
    · exact cons_ne_nil letter text fits
    · exact spent later skipped left here

theorem search_none_iff :
    search pieces text none = true ↔ Fits pieces text := by
  rw [search_iff pieces text none nofun]
  exact or_iff_left nofun

end Oryxis.Library

/-
This file proves when the copy of a table comes to its end, for any engine.

Every round of the loop gets past something: the highest rowid met, or else the key it reads
from. And a search ends, because its steps double until they reach past the last rowid there
is. That is so where the search starts from 0 or above. From a key below 0 even the longest
step falls short of the last rowid, the test for it never comes true, and a search whose
probes are all refused asks the same key for ever. Apart from that the copy returns.
-/

import Mathlib.Data.Nat.Find
import Mathlib.Data.Prod.Lex
import Oryxis.Library.Iterates
import Oryxis.Vault.CopyTable

namespace Oryxis.Rebuild

open Library

variable {Values : Type} {engine : Engine Values}

/-! ### The steps of a search -/

/-- The step of a search after as many probes. -/
def searchStep (probes : Nat) : Int := min (2 ^ probes) maxRowid

def searchKey (floor : Int) (probes : Nat) : Int := saturate (floor + searchStep probes)

/-- A search from below 0 begins whose probes are all refused. -/
def Stuck (engine : Engine Values) (state : CopyState Values) : Prop :=
  ∃ walked floor, state.phase = .doubling walked floor floor 1 ∧ floor < 0 ∧
    ∀ probes, ask engine (state.call + probes) walked (searchKey floor probes) = .refused

theorem searchStep_zero : searchStep 0 = 1 := by decide

theorem one_le_two_pow (probes : Nat) : (1 : Int) ≤ 2 ^ probes := by
  induction probes with
  | zero => decide
  | succ probes inductionHypothesis =>
    rw [pow_succ]
    omega

theorem searchStep_succ (probes : Nat) :
    saturate (searchStep probes * 2) = searchStep (probes + 1) := by
  have positive := one_le_two_pow probes
  rw [searchStep, searchStep, pow_succ]
  simp only [saturate, minRowid, maxRowid]
  omega

theorem searchStep_bounds (probes : Nat) :
    1 ≤ searchStep probes ∧ searchStep probes ≤ maxRowid := by
  have positive := one_le_two_pow probes
  simp only [searchStep, maxRowid]
  omega

variable {floor : Int}

/-- From 0 or above the last rowid is asked from in the end. -/
theorem searchKey_of_nonneg (nonneg : 0 ≤ floor) : searchKey floor 63 = maxRowid := by
  have last : searchStep 63 = maxRowid := by decide
  rw [searchKey, last]
  simp only [saturate, minRowid, maxRowid]
  omega

/-- From below 0 it never is. -/
theorem searchKey_of_neg (negative : floor < 0) (probes : Nat) :
    searchKey floor probes ≠ maxRowid := by
  have bounds := searchStep_bounds probes
  simp only [searchKey, saturate, minRowid, maxRowid] at bounds ⊢
  omega

/-! ### Rowids -/

theorem isRowid_saturate (rowid : Int) : IsRowid (saturate rowid) := by
  simp only [IsRowid, saturate, minRowid, maxRowid]
  omega

theorem isRowid_minRowid : IsRowid minRowid := by
  simp only [IsRowid, minRowid, maxRowid]
  omega

variable {walked : Int}

theorem ask_found {call : Nat} {key rowid : Int} (found : ask engine call walked key = .found rowid) :
    engine.probe call key = .found rowid ∧ walked < rowid := by
  unfold ask at found
  split at found
  · rename_i answered probed
    split at found
    · rename_i past
      cases found
      exact ⟨probed, past⟩
    · cases found
  · cases found
  · cases found

theorem advance_bounds (rows : List (Int × Values)) {last : Int} (isRowid : IsRowid last)
    (rowids : ∀ row ∈ rows, IsRowid row.1) :
    last ≤ advance rows last ∧ IsRowid (advance rows last) := by
  induction rows generalizing last with
  | nil => exact ⟨Int.le_refl last, isRowid⟩
  | cons row rows inductionHypothesis =>
    have here := rowids row List.mem_cons_self
    have later := fun other member => rowids other (List.mem_cons_of_mem _ member)
    rw [advance, List.foldl_cons]
    by_cases past : row.1 > last
    · rw [if_pos past]
      obtain ⟨above, isLast⟩ := inductionHypothesis here later
      exact ⟨Int.le_trans (Int.le_of_lt past) above, isLast⟩
    · rw [if_neg past]
      exact inductionHypothesis isRowid later

/-! ### Reading -/

/-- What one round of reading comes to. -/
inductive ReadStep (state next : CopyState Values) : Prop where
  | returned (returned : next.hasReturned = true) (start : next.start = state.start)
  | onward (phase : next.phase = .reading) (past : state.last < next.last)
      (start : next.start = saturate (next.last + 1))
  | searching (walked : Int) (phase : next.phase = searchFrom walked)
      (start : next.start = state.start)
      (walks : walked = if next.last ≤ state.last ∧ state.start > next.last then state.start
        else next.last)

theorem readStep (engine : Engine Values) (state : CopyState Values)
    (isRowid : IsRowid state.last) :
    ReadStep state (state.readOn engine) ∧ state.last ≤ (state.readOn engine).last ∧
      IsRowid (state.readOn engine).last := by
  have advanced := advance_bounds (engine.readBatch state.call state.start).1 isRowid
    (engine.readBatch_isRowid state.call state.start)
  unfold CopyState.readOn
  simp only []
  split
  · exact ⟨.returned rfl rfl, Int.le_refl _, isRowid⟩
  · split
    · exact ⟨.returned rfl rfl, advanced⟩
    · split
      · rename_i goesOn
        simp only [Bool.and_eq_true, decide_eq_true_eq] at goesOn
        exact ⟨.onward rfl goesOn.2 rfl, advanced⟩
      · exact ⟨.searching _ rfl rfl rfl, advanced⟩

/-! ### Searching -/

/-- A search has come to its end: the copy has too, or it reads on past the walked key. -/
def Searched (walked : Int) (before state : CopyState Values) : Prop :=
  state.hasReturned = true ∨
    state.phase = .reading ∧ state.last = before.last ∧ walked < state.start ∧ IsRowid state.start

variable {state : CopyState Values}

theorem bisecting_comesTo {failedAt hi found : Int}
    (phase : state.phase = .bisecting walked failedAt hi found) (past : walked < found)
    (isRowid : IsRowid found) :
    ComesTo (CopyState.step engine) (Searched walked state) state := by
  induction width : (hi - failedAt).toNat using Nat.strong_induction_on
    generalizing state failedAt hi found with
  | _ current inductionHypothesis =>
    refine comesTo_step ?_
    -- A step halves the interval, so the measure is its width.
    have narrower : 1 < hi - failedAt → (hi - middle failedAt hi).toNat < current ∧
        (middle failedAt hi - failedAt).toNat < current := by
      intro wide
      simp only [middle]
      omega
    rcases bisectingStep engine phase with
      ⟨rowid, wide, answer, comes⟩ | ⟨wide, answer, comes⟩ | ⟨wide, answer, comes⟩ |
        ⟨narrow, comes⟩
    · obtain ⟨probed, later⟩ := ask_found answer
      rw [comes]
      exact inductionHypothesis _ (narrower wide).2 rfl later (engine.probe_isRowid _ _ _ probed)
        rfl
    · rw [comes]
      exact comesTo_now (.inr ⟨rfl, rfl, past, isRowid⟩)
    · rw [comes]
      exact inductionHypothesis _ (narrower wide).1 rfl past isRowid rfl
    · rw [comes]
      exact comesTo_now (.inr ⟨rfl, rfl, past, isRowid⟩)

/-- A search as long as its probes are refused. -/
theorem doubling_refused (engine : Engine Values)
    (phase : state.phase = .doubling walked floor floor 1) (probes : Nat)
    (refused : ∀ earlier, earlier < probes →
      ask engine (state.call + earlier) walked (searchKey floor earlier) = .refused ∧
        searchKey floor earlier ≠ maxRowid) :
    ∃ failedAt, (CopyState.step engine)^[probes] state =
      { state with
        call := state.call + probes
        phase := .doubling walked floor failedAt (searchStep probes) } := by
  induction probes with
  | zero =>
    refine ⟨floor, ?_⟩
    rw [searchStep_zero, ← phase]
    rfl
  | succ probes inductionHypothesis =>
    obtain ⟨failedAt, there⟩ := inductionHypothesis
      fun earlier before => refused earlier (Nat.lt_succ_of_lt before)
    obtain ⟨here, notLast⟩ := refused probes (Nat.lt_succ_self probes)
    refine ⟨searchKey floor probes, ?_⟩
    rw [Function.iterate_succ_apply', there, CopyState.step]
    simp only []
    rw [← searchKey, here]
    simp only [if_neg notLast, CopyState.called, searchStep_succ]
    rfl

/-- A search that is not stuck ends. -/
theorem doubling_comesTo (phase : state.phase = .doubling walked floor floor 1)
    (notStuck : ¬ Stuck engine state) :
    ComesTo (CopyState.step engine) (Searched walked state) state := by
  have ends : ∃ probes, ¬ (ask engine (state.call + probes) walked (searchKey floor probes)
      = .refused ∧ searchKey floor probes ≠ maxRowid) := by
    by_contra none
    have refused := fun probes => not_not.mp (not_exists.mp none probes)
    have negative : floor < 0 := by
      by_contra nonneg
      exact (refused 63).2 (searchKey_of_nonneg (Int.not_lt.mp nonneg))
    exact notStuck ⟨walked, floor, phase, negative, fun probes => (refused probes).1⟩
  -- The first probe that answers, or that asked from the last rowid.
  classical
  have here := Nat.find_spec ends
  obtain ⟨failedAt, there⟩ := doubling_refused engine phase (Nat.find ends)
    fun earlier before => not_not.mp (Nat.find_min ends before)
  refine ComesTo.after (Nat.find ends) ?_
  rw [there]
  refine comesTo_step ?_
  have doubled : CopyState.phase { state with
      call := state.call + Nat.find ends
      phase := .doubling walked floor failedAt (searchStep (Nat.find ends)) } =
    .doubling walked floor failedAt (searchStep (Nat.find ends)) := rfl
  rcases doublingStep engine doubled with
    ⟨rowid, answer, comes⟩ | ⟨answer, comes⟩ | ⟨answer, isLast, comes⟩ |
      ⟨answer, notLast, comes⟩
  · obtain ⟨probed, later⟩ := ask_found answer
    rw [comes]
    exact bisecting_comesTo rfl later (engine.probe_isRowid _ _ _ probed)
  · rw [comes]
    exact comesTo_now (.inl rfl)
  · rw [comes]
    exact comesTo_now (.inl rfl)
  · exact absurd ⟨answer, notLast⟩ here

/-- A search that is stuck does not, and neither does the copy. -/
theorem not_hasReturned_of_stuck (stuck : Stuck engine state) (times : Nat) :
    ((CopyState.step engine)^[times] state).hasReturned = false := by
  obtain ⟨walked, floor, phase, negative, refused⟩ := stuck
  obtain ⟨failedAt, there⟩ := doubling_refused engine phase times
    fun earlier _ => ⟨refused earlier, searchKey_of_neg negative earlier⟩
  rw [there]
  rfl

/-! ### The whole copy -/

/-- Between two rounds of a copy that never gets stuck. -/
def Rounds (engine : Engine Values) (state : CopyState Values) : Prop :=
  state.phase = .reading ∧ IsRowid state.last ∧ IsRowid state.start ∧
    ∀ times, ¬ Stuck engine ((CopyState.step engine)^[times] state)

/-- What a round gets past: the highest rowid met, or else the key it reads from. -/
def ahead (state : CopyState Values) : Nat × Nat :=
  ((maxRowid - state.last).toNat, (maxRowid - state.start).toNat)

theorem ahead_of_last {next : CopyState Values} (isRowid : IsRowid next.last)
    (past : state.last < next.last) :
    Prod.Lex (· < ·) (· < ·) (ahead next) (ahead state) := by
  refine Prod.Lex.left _ _ ?_
  have bound := isRowid.2
  omega

theorem ahead_of_start {next : CopyState Values} (isRowid : IsRowid next.start)
    (same : next.last = state.last) (past : state.start < next.start) :
    Prod.Lex (· < ·) (· < ·) (ahead next) (ahead state) := by
  rw [ahead, ahead, same]
  refine Prod.Lex.right _ ?_
  have bound := isRowid.2
  omega

theorem round_decreases (rounds : Rounds engine state) :
    ComesTo (CopyState.step engine) (fun state => state.hasReturned = true) state ∨
      ∃ times, Rounds engine ((CopyState.step engine)^[times] state) ∧
        Prod.Lex (· < ·) (· < ·) (ahead ((CopyState.step engine)^[times] state))
          (ahead state) := by
  obtain ⟨phase, isLast, isStart, notStuck⟩ := rounds
  obtain ⟨read, notBelow, isNext⟩ := readStep engine state isLast
  have stepped := step_reading engine phase
  have later : ∀ more times, ¬ Stuck engine ((CopyState.step engine)^[times]
      ((CopyState.step engine)^[more] state)) := by
    intro more times
    rw [← Function.iterate_add_apply]
    exact notStuck (times + more)
  rw [← stepped] at read notBelow isNext
  rcases read with ⟨returned, start⟩ | ⟨onward, past, start⟩ | ⟨walked, searching, start, walks⟩
  · exact .inl (comesTo_step (comesTo_now returned))
  · refine .inr ⟨1, ⟨onward, isNext, ?_, later 1⟩, ahead_of_last isNext past⟩
    rw [Function.iterate_one, start]
    exact isRowid_saturate _
  · obtain ⟨times, returned | ⟨reads, sameLast, past, isFound⟩⟩ :=
      doubling_comesTo searching (later 1 0)
    · exact .inl ⟨times + 1, returned⟩
    · refine .inr ⟨times + 1, ⟨reads, ?_, isFound, later (times + 1)⟩, ?_⟩
      · rw [Function.iterate_succ_apply, sameLast]
        exact isNext
      · rw [Function.iterate_succ_apply]
        by_cases further : state.last < (state.step engine).last
        · refine ahead_of_last ?_ ?_
          · rw [sameLast]
            exact isNext
          · rw [sameLast]
            exact further
        · refine ahead_of_start isFound (by omega) ?_
          rw [walks] at past
          split at past <;> omega

/-- The copy, over whatever the new table holds, returns unless it gets stuck. -/
theorem comesTo_hasReturned (written : List (Int × Values))
    (notStuck : ∀ times,
      ¬ Stuck engine ((CopyState.step engine)^[times] (CopyState.initial written))) :
    ComesTo (CopyState.step engine) (fun state => state.hasReturned = true)
      (CopyState.initial written) := by
  have first : Rounds engine (CopyState.initial written) :=
    ⟨rfl, isRowid_minRowid, isRowid_minRowid, notStuck⟩
  obtain ⟨times, more, returned⟩ :=
    comesTo_of_decreases (WellFounded.prod_lex Nat.lt_wfRel.wf Nat.lt_wfRel.wf) ahead
      (Rounds engine) (fun _ rounds => round_decreases rounds) first
  exact ComesTo.after times ⟨more, returned⟩

theorem hasReturned_iterate (returned : state.hasReturned = true) (times : Nat) :
    (CopyState.step engine)^[times] state = state :=
  Function.iterate_fixed (step_returned returned) times

theorem not_stuck_of_comesTo
    (returns : ComesTo (CopyState.step engine) (fun state => state.hasReturned = true) state)
    (times : Nat) : ¬ Stuck engine ((CopyState.step engine)^[times] state) := by
  intro stuck
  obtain ⟨more, returned⟩ := returns
  have later := not_hasReturned_of_stuck stuck more
  rw [← Function.iterate_add_apply, Nat.add_comm, Function.iterate_add_apply,
    hasReturned_iterate returned] at later
  rw [later] at returned
  cases returned

/-- For every database, the copy of a table returns exactly when no search that starts from below
0 has all its probes refused. -/
theorem returns_iff (engine : Engine Values) (written : List (Int × Values)) :
    ComesTo (CopyState.step engine) (fun state => state.hasReturned = true)
        (CopyState.initial written) ↔
      ∀ times, ¬ Stuck engine ((CopyState.step engine)^[times] (CopyState.initial written)) :=
  ⟨not_stuck_of_comesTo, comesTo_hasReturned written⟩

/-- One row at −1, and nothing else that can be read. -/
def belowZero : Engine Unit where
  readBatch _ start := if start ≤ -1 then ([(-1, ())], true) else ([], true)
  probe _ _ := .refused
  insert _ _ _ := .copied
  readBatch_isRowid := by
    intro call start row member
    split at member
    · rw [List.mem_singleton.mp member]
      simp only [IsRowid, minRowid, maxRowid]
      omega
    · cases member
  probe_isRowid := by
    intro call key rowid found
    cases found

/-- Its copy never returns: from −1 the steps double up to the last rowid but one, and that key
is asked from for ever. -/
theorem not_returns_belowZero :
    ¬ ComesTo (CopyState.step belowZero) (fun state => state.hasReturned = true)
      (CopyState.initial []) := by
  intro returns
  exact not_stuck_of_comesTo returns 1 ⟨-1, -1, rfl, by decide, fun _ => rfl⟩

theorem advance_eq (rows : List (Int × Values)) (last : Int) :
    advance rows last = last ∨ ∃ row ∈ rows, advance rows last = row.1 := by
  induction rows generalizing last with
  | nil => exact .inl rfl
  | cons row rows inductionHypothesis =>
    rw [advance, List.foldl_cons]
    rcases inductionHypothesis (if row.1 > last then row.1 else last) with
      same | ⟨other, member, same⟩
    · rw [← advance, same]
      split
      · exact .inr ⟨row, List.mem_cons_self, rfl⟩
      · exact .inl rfl
    · exact .inr ⟨other, List.mem_cons_of_mem _ member, same⟩

/-! ### Machine integers -/

/-- The sums of a search saturate; its differences need not. -/
structure Within (state : CopyState Values) : Prop where
  last : IsRowid state.last
  start : IsRowid state.start
  doubling : ∀ walked floor failedAt step, state.phase = .doubling walked floor failedAt step →
    IsRowid floor ∧ 1 ≤ step ∧ step ≤ maxRowid ∧ floor ≤ failedAt ∧
      failedAt ≤ saturate (floor + step)
  bisecting : ∀ walked failedAt hi found, state.phase = .bisecting walked failedAt hi found →
    IsRowid found ∧ 0 ≤ hi - failedAt ∧ hi - failedAt ≤ maxRowid

theorem within_readOn (engine : Engine Values) (within : Within state) :
    Within (state.readOn engine) := by
  obtain ⟨read, notBelow, isNext⟩ := readStep engine state within.last
  rcases read with ⟨returned, start⟩ | ⟨onward, past, start⟩ | ⟨walked, searching, start, walks⟩
  · refine ⟨isNext, by rw [start]; exact within.start, ?_, ?_⟩
    · intro walked floor failedAt step same
      rcases hasReturned_cases returned with ended | ended <;> cases ended.symm.trans same
    · intro walked failedAt hi found same
      rcases hasReturned_cases returned with ended | ended <;> cases ended.symm.trans same
  · exact ⟨isNext, by rw [start]; exact isRowid_saturate _,
      (fun _ _ _ _ same => nomatch onward.symm.trans same),
      (fun _ _ _ _ same => nomatch onward.symm.trans same)⟩
  · refine ⟨isNext, by rw [start]; exact within.start, ?_,
      (fun _ _ _ _ same => nomatch searching.symm.trans same)⟩
    have isWalked : IsRowid walked := by
      rw [walks]
      split
      · exact within.start
      · exact isNext
    have isFirst : IsRowid (if walked = minRowid then 0 else walked) := by
      split
      · simp only [IsRowid, minRowid, maxRowid]
        omega
      · exact isWalked
    intro otherWalked floor failedAt step same
    have first := searching.symm.trans same
    simp only [searchFrom, CopyPhase.doubling.injEq] at first
    obtain ⟨-, isFloor, isFailed, isStep⟩ := first
    rw [isFloor] at isFirst isFailed
    simp only [IsRowid, saturate, minRowid, maxRowid] at isFirst ⊢
    omega

theorem within_finished (within : Within state) :
    Within (state.called .finished) :=
  ⟨within.last, within.start, (fun _ _ _ _ same => nomatch same),
    (fun _ _ _ _ same => nomatch same)⟩

theorem within_readFrom (within : Within state) {start : Int} {call : Nat} (isRowid : IsRowid start) : Within { state.readFrom start with call := call } :=
  ⟨within.last, isRowid, (fun _ _ _ _ same => nomatch same), (fun _ _ _ _ same => nomatch same)⟩

/-- No difference a search takes leaves the machine's range. -/
theorem within_step (within : Within state) :
    Within (state.step engine) := by
  cases phase : state.phase with
  | reading =>
    rw [step_reading engine phase]
    exact within_readOn engine within
  | doubling walked floor failedAt step =>
    obtain ⟨isFloor, one, bound, above, below⟩ := within.doubling _ _ _ _ phase
    simp only [IsRowid, saturate, minRowid, maxRowid] at isFloor bound below
    rcases doublingStep engine phase with
      ⟨rowid, answer, comes⟩ | ⟨answer, comes⟩ | ⟨answer, isLast, comes⟩ |
        ⟨answer, notLast, comes⟩
    · rw [comes]
      refine ⟨within.last, within.start, (fun _ _ _ _ same => nomatch same), ?_⟩
      rintro _ _ _ _ ⟨⟩
      refine ⟨engine.probe_isRowid _ _ _ (ask_found answer).1, ?_⟩
      simp only [saturate, minRowid, maxRowid]
      omega
    · rw [comes]
      exact within_finished within
    · rw [comes]
      exact within_finished within
    · rw [comes]
      refine ⟨within.last, within.start, ?_, (fun _ _ _ _ same => nomatch same)⟩
      rintro _ _ _ _ ⟨⟩
      simp only [IsRowid, saturate, minRowid, maxRowid]
      omega
  | bisecting walked failedAt hi found =>
    obtain ⟨isFound, nonneg, bound⟩ := within.bisecting _ _ _ _ phase
    simp only [maxRowid] at bound
    rcases bisectingStep engine phase with
      ⟨rowid, wide, answer, comes⟩ | ⟨wide, answer, comes⟩ | ⟨wide, answer, comes⟩ |
        ⟨narrow, comes⟩
    · rw [comes]
      refine ⟨within.last, within.start, (fun _ _ _ _ same => nomatch same), ?_⟩
      rintro _ _ _ _ ⟨⟩
      refine ⟨engine.probe_isRowid _ _ _ (ask_found answer).1, ?_⟩
      simp only [middle, maxRowid]
      omega
    · rw [comes]
      exact within_readFrom within isFound
    · rw [comes]
      refine ⟨within.last, within.start, (fun _ _ _ _ same => nomatch same), ?_⟩
      rintro _ _ _ _ ⟨⟩
      refine ⟨isFound, ?_⟩
      simp only [middle, maxRowid]
      omega
    · rw [comes]
      exact within_readFrom within isFound
  | finished =>
    rw [step_returned (by simp [CopyState.hasReturned, phase])]
    exact within
  | writeFailed =>
    rw [step_returned (by simp [CopyState.hasReturned, phase])]
    exact within

theorem within_iterate (written : List (Int × Values)) (times : Nat) :
    Within ((CopyState.step engine)^[times] (CopyState.initial written)) := by
  refine Function.Iterate.rec Within ?_ (fun state within => within_step within) times
  exact ⟨isRowid_minRowid, isRowid_minRowid, (fun _ _ _ _ same => nomatch same),
    (fun _ _ _ _ same => nomatch same)⟩

end Oryxis.Rebuild

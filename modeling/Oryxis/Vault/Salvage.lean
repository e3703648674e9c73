/-
This file proves which copies of a damaged table bring over every row that can be read.

A search for the next key the engine answers from asks ever further ahead, and takes what a
probe beyond a readable row says for the whole of what lies before it. So a row is kept where
each probe that goes past it answers with a row, and the narrowing then comes back to it. It
is lost where such a probe meets damage, or the end of the table, or where the search starts
above it. What is lost is never read again. A table none of whose searches passes a readable
row so is copied whole, and every other table is not.
-/

import Mathlib.Data.List.Nodup
import Oryxis.Vault.CopyEnds
import Oryxis.Vault.DamagedTable

namespace Oryxis.Rebuild

open Library List

variable {Values : Type} {table : DamagedTable Values} {state : CopyState Values}

/-! ### The condition -/

/-- The next probe leaves no readable row behind: a search starts below every row there is to
come, and where the key asked from is past one, a row answers. -/
def Fits (table : DamagedTable Values) (state : CopyState Values) : Prop :=
  match state.phase with
  | .doubling walked floor _ step =>
    ∀ row ∈ table.rows, table.readable row.1 = true → walked < row.1 → floor < row.1 ∧
      (row.1 < saturate (floor + step) →
        ∃ rowid, table.probe (saturate (floor + step)) = .found rowid)
  | .bisecting walked failedAt hi _ =>
    1 < hi - failedAt →
      ∀ row ∈ table.rows, table.readable row.1 = true → walked < row.1 →
        row.1 < middle failedAt hi → ∃ rowid, table.probe (middle failedAt hi) = .found rowid
  | .reading | .finished | .writeFailed => True

/-- The copy comes to its end with every readable row written once, and no other row. -/
def Salvages (table : DamagedTable Values) : Prop :=
  ComesTo (CopyState.step table.engine)
    (fun state => state.phase = .finished ∧
      state.written.Perm (table.rows.filter fun row => table.readable row.1))
    (CopyState.initial [])

/-! ### Probes -/

variable {call : Nat} {walked key rowid : Int}

theorem ask_of_probe (found : table.probe key = .found rowid) (past : walked < rowid) :
    ask table.engine call walked key = .found rowid := by
  have probed : table.engine.probe call key = .found rowid := found
  simp only [ask, probed, if_pos past]

theorem probe_of_ask (nothing : ask table.engine call walked key = .nothing) :
    table.probe key = .nothing := by
  unfold ask at nothing
  split at nothing
  · split at nothing <;> cases nothing
  · assumption
  · cases nothing

variable {row : Int × Values}

/-- Where a probe is refused, a readable row it asks from is none past the walked key. -/
theorem ne_of_refused (refused : ask table.engine call walked key = .refused)
    (member : row ∈ table.rows) (readable : table.readable row.1 = true) (past : walked < row.1) :
    row.1 ≠ key := by
  rintro rfl
  rw [ask_of_probe (table.probe_at member readable) past] at refused
  cases refused

/-- A probe from past a readable row that a row answers is not refused. -/
theorem not_refused (found : table.probe key = .found rowid) (past : walked < row.1)
    (before : row.1 < key) :
    ask table.engine call walked key = .found rowid := by
  obtain ⟨-, above, -⟩ := table.probe_found found
  exact ask_of_probe found (by omega)

/-! ### Reading -/

theorem le_advance (rows : List (Int × Values)) (last : Int) :
    last ≤ advance rows last ∧ ∀ row ∈ rows, row.1 ≤ advance rows last := by
  induction rows generalizing last with
  | nil => exact ⟨Int.le_refl _, forall_mem_nil _⟩
  | cons row rows inductionHypothesis =>
    rw [advance, foldl_cons, ← advance]
    obtain ⟨above, all⟩ := inductionHypothesis (if row.1 > last then row.1 else last)
    have further : last ≤ (if row.1 > last then row.1 else last) ∧
        row.1 ≤ (if row.1 > last then row.1 else last) := by
      split <;> omega
    refine ⟨Int.le_trans further.1 above, fun other member => ?_⟩
    rcases mem_cons.mp member with rfl | member
    · exact Int.le_trans further.2 above
    · exact all other member

/-- What one round of reading comes to, on a damaged table. -/
inductive TableRead (table : DamagedTable Values) (state next : CopyState Values) : Prop where
  | finished (phase : next.phase = .finished)
      (all : ∀ row ∈ table.rows, state.start ≤ row.1 → row ∈ (table.readBatch state.start).1)
  | onward (phase : next.phase = .reading) (past : state.last < next.last)
      (start : next.start = saturate (next.last + 1))
  | searching (walked : Int) (phase : next.phase = searchFrom walked)
      (walks : walked = if next.last ≤ state.last ∧ state.start > next.last then state.start
        else next.last)

theorem readOn_table (table : DamagedTable Values) (holds : table.Holds state.written) :
    TableRead table state (state.readOn table.engine) ∧
      (state.readOn table.engine).last = advance (table.readBatch state.start).1 state.last ∧
      table.Holds (state.readOn table.engine).written ∧
      ∀ row, row ∈ (state.readOn table.engine).written ↔
        row ∈ state.written ∨ row ∈ (table.readBatch state.start).1 := by
  have batch_eq : table.engine.readBatch state.call state.start = table.readBatch state.start :=
    rfl
  obtain ⟨written, report, writes, holds', members⟩ :=
    table.writeRows_table state.call state.report holds
      fun row read => (table.readBatch_mem read).imp_right And.right
  unfold CopyState.readOn
  simp only [batch_eq]
  rw [writes]
  simp only []
  split
  · rename_i ended
    simp only [Bool.and_eq_true, Bool.not_eq_true', decide_eq_true_eq] at ended
    exact ⟨.finished rfl fun row member above =>
      table.readBatch_all ended.1 ended.2 member above, rfl, holds', members⟩
  · split
    · rename_i goesOn
      simp only [Bool.and_eq_true, decide_eq_true_eq] at goesOn
      exact ⟨.onward rfl goesOn.2 rfl, rfl, holds', members⟩
    · exact ⟨.searching _ rfl rfl, rfl, holds', members⟩

/-! ### What is written -/

/-- What an answer is: the first row from the key on, past the walked key. -/
def Ends (table : DamagedTable Values) (walked key found : Int) : Prop :=
  walked < found ∧ (∃ row ∈ table.rows, row.1 = found) ∧ key ≤ found ∧
    ∀ row ∈ table.rows, key ≤ row.1 → found ≤ row.1

/-- What holds of every run: the rows written are readable ones, none of them past what a search
starts from, and a search holds a row that it can end at. -/
structure Sound (table : DamagedTable Values) (state : CopyState Values) : Prop where
  holds : table.Holds state.written
  below : ∀ row ∈ state.written, row.1 ≤ state.last
  wrote : state.phase ≠ .writeFailed
  doubling : ∀ walked floor failedAt step, state.phase = .doubling walked floor failedAt step →
    state.last ≤ walked ∧ floor = if walked = minRowid then 0 else walked
  bisecting : ∀ walked failedAt hi found, state.phase = .bisecting walked failedAt hi found →
    state.last ≤ walked ∧ Ends table walked hi found

theorem ask_table (found : ask table.engine call walked key = .found rowid) :
    Ends table walked key rowid := by
  obtain ⟨probed, past⟩ := ask_found found
  exact ⟨past, table.probe_found probed⟩

theorem sound_readOn (sound : Sound table state) : Sound table (state.readOn table.engine) := by
  obtain ⟨read, isLast, holds, members⟩ := readOn_table table sound.holds
  obtain ⟨above, all⟩ := le_advance (table.readBatch state.start).1 state.last
  rw [← isLast] at above all
  have below : ∀ row ∈ (state.readOn table.engine).written,
      row.1 ≤ (state.readOn table.engine).last := by
    intro row member
    rcases (members row).mp member with before | read
    · exact Int.le_trans (sound.below row before) above
    · exact all row read
  rcases read with ⟨ended, reached⟩ | ⟨onward, past, start⟩ | ⟨walked, searching, walks⟩
  · exact ⟨holds, below, (fun same => nomatch ended.symm.trans same),
      (fun _ _ _ _ same => nomatch ended.symm.trans same),
      (fun _ _ _ _ same => nomatch ended.symm.trans same)⟩
  · exact ⟨holds, below, (fun same => nomatch onward.symm.trans same),
      (fun _ _ _ _ same => nomatch onward.symm.trans same),
      (fun _ _ _ _ same => nomatch onward.symm.trans same)⟩
  · refine ⟨holds, below, (fun same => nomatch searching.symm.trans same), ?_,
      (fun _ _ _ _ same => nomatch searching.symm.trans same)⟩
    intro otherWalked floor failedAt step same
    have first := searching.symm.trans same
    simp only [searchFrom, CopyPhase.doubling.injEq] at first
    obtain ⟨rfl, isFloor, -, -⟩ := first
    refine ⟨?_, isFloor.symm⟩
    rw [walks]
    split <;> omega

theorem sound_called (sound : Sound table state) {phase : CopyPhase}
    (wrote : phase ≠ .writeFailed)
    (doubling : ∀ walked floor failedAt step, phase = .doubling walked floor failedAt step →
      state.last ≤ walked ∧ floor = if walked = minRowid then 0 else walked)
    (bisecting : ∀ walked failedAt hi found, phase = .bisecting walked failedAt hi found →
      state.last ≤ walked ∧ Ends table walked hi found) :
    Sound table (state.called phase) :=
  ⟨sound.holds, sound.below, wrote, doubling, bisecting⟩

theorem sound_finished (sound : Sound table state) : Sound table (state.called .finished) :=
  sound_called sound (fun same => nomatch same) (fun _ _ _ _ same => nomatch same)
    (fun _ _ _ _ same => nomatch same)

theorem sound_readFrom (sound : Sound table state) {start : Int} :
    Sound table { state.readFrom start with call := call } :=
  ⟨sound.holds, sound.below, (fun same => nomatch same), (fun _ _ _ _ same => nomatch same),
    (fun _ _ _ _ same => nomatch same)⟩

theorem sound_step (sound : Sound table state) : Sound table (state.step table.engine) := by
  cases phase : state.phase with
  | reading =>
    rw [step_reading table.engine phase]
    exact sound_readOn sound
  | doubling walked floor failedAt step =>
    obtain ⟨notPast, isFloor⟩ := sound.doubling _ _ _ _ phase
    rcases doublingStep table.engine phase with
      ⟨rowid, answer, comes⟩ | ⟨answer, comes⟩ | ⟨answer, isLast, comes⟩ |
        ⟨answer, notLast, comes⟩
    · rw [comes]
      refine sound_called sound (fun same => nomatch same) (fun _ _ _ _ same => nomatch same) ?_
      rintro _ _ _ _ ⟨⟩
      exact ⟨notPast, ask_table answer⟩
    · rw [comes]
      exact sound_finished sound
    · rw [comes]
      exact sound_finished sound
    · rw [comes]
      refine sound_called sound (fun same => nomatch same) ?_ (fun _ _ _ _ same => nomatch same)
      rintro _ _ _ _ ⟨⟩
      exact ⟨notPast, isFloor⟩
  | bisecting walked failedAt hi found =>
    obtain ⟨notPast, ends⟩ := sound.bisecting _ _ _ _ phase
    rcases bisectingStep table.engine phase with
      ⟨rowid, wide, answer, comes⟩ | ⟨wide, answer, comes⟩ | ⟨wide, answer, comes⟩ |
        ⟨narrow, comes⟩
    · rw [comes]
      refine sound_called sound (fun same => nomatch same) (fun _ _ _ _ same => nomatch same) ?_
      rintro _ _ _ _ ⟨⟩
      exact ⟨notPast, ask_table answer⟩
    · rw [comes]
      exact sound_readFrom sound
    · rw [comes]
      refine sound_called sound (fun same => nomatch same) (fun _ _ _ _ same => nomatch same) ?_
      rintro _ _ _ _ ⟨⟩
      exact ⟨notPast, ends⟩
    · rw [comes]
      exact sound_readFrom sound
  | finished =>
    rw [step_returned (by simp [CopyState.hasReturned, phase])]
    exact sound
  | writeFailed => exact absurd phase sound.wrote

theorem sound_iterate (table : DamagedTable Values) (times : Nat) :
    Sound table ((CopyState.step table.engine)^[times] (CopyState.initial [])) := by
  refine Function.Iterate.rec (Sound table) ?_ (fun state sound => sound_step sound) times
  exact ⟨⟨forall_mem_nil _, nodup_nil⟩,
    forall_mem_nil _, (fun same => nomatch same),
    (fun _ _ _ _ same => nomatch same), (fun _ _ _ _ same => nomatch same)⟩

/-! ### What is still to come -/

/-- The copy has not gone past a rowid. -/
def Ahead (state : CopyState Values) (rowid : Int) : Prop :=
  match state.phase with
  | .reading => state.start ≤ rowid ∧ (state.last < rowid ∨ state.last = minRowid)
  | .doubling walked floor failedAt _ => walked < rowid ∧ (failedAt = floor ∨ failedAt < rowid)
  | .bisecting walked failedAt hi found =>
    walked < rowid ∧ failedAt < rowid ∧ (hi ≤ rowid → found ≤ rowid)
  | .finished | .writeFailed => False

/-- Every readable row is written or still to come. -/
def Whole (table : DamagedTable Values) (state : CopyState Values) : Prop :=
  ∀ row ∈ table.rows, table.readable row.1 = true → row ∉ state.written → Ahead state row.1

/-- Nothing past a key, where a row past a later key was found, is no answer there is. -/
theorem not_nothing {failedAt hi found : Int} (wide : 1 < hi - failedAt)
    (isRow : ∃ row ∈ table.rows, row.1 = found) (above : hi ≤ found) :
    ask table.engine call walked (middle failedAt hi) ≠ .nothing := by
  intro nothing
  obtain ⟨row, member, same⟩ := isRow
  have before := table.probe_nothing (probe_of_ask nothing) row member
  simp only [middle] at before
  omega

theorem whole_readOn (phase : state.phase = .reading) (sound : Sound table state)
    (within : Within state) (whole : Whole table state) :
    Whole table (state.readOn table.engine) := by
  intro row member readable missing
  obtain ⟨read, isLast, -, members⟩ := readOn_table table sound.holds
  have unread := fun read => missing ((members row).mpr (.inr read))
  have ahead := whole row member readable fun before => missing ((members row).mpr (.inl before))
  simp only [Ahead, phase] at ahead
  obtain ⟨above, beyond⟩ := ahead
  have notStart : row.1 ≠ state.start := by
    intro same
    exact unread (same ▸ table.readBatch_first member readable)
  have isRowid := table.isRowid row member
  have isStart := within.start
  have isBefore := within.last
  -- The highest rowid met is one met before, or is of a row this round read.
  have pastLast : (state.readOn table.engine).last < row.1 ∨
      (state.readOn table.engine).last = minRowid := by
    rw [isLast]
    rcases advance_eq (table.readBatch state.start).1 state.last with same | ⟨other, read, same⟩
    · rw [same]
      exact beyond
    · rw [same]
      exact .inl (table.readBatch_below member above unread read)
  simp only [IsRowid] at isRowid isStart isBefore
  rcases read with ⟨ended, reached⟩ | ⟨onward, past, start⟩ | ⟨walked, searching, walks⟩
  · exact absurd (reached row member above) unread
  · simp only [Ahead, onward, start, saturate]
    omega
  · simp only [Ahead, searching, searchFrom]
    refine ⟨?_, .inl trivial⟩
    rw [walks]
    split <;> omega

/-- A probe that fits leaves every row to come ahead. -/
theorem whole_step (sound : Sound table state) (within : Within state) (fits : Fits table state)
    (whole : Whole table state) : Whole table (state.step table.engine) := by
  cases phase : state.phase with
  | reading =>
    rw [step_reading table.engine phase]
    exact whole_readOn phase sound within whole
  | doubling walked floor failedAt step =>
    simp only [Fits, phase] at fits
    simp only [Whole, Ahead, phase] at whole
    rcases doublingStep table.engine phase with
      ⟨rowid, answer, comes⟩ | ⟨answer, comes⟩ | ⟨answer, isLast, comes⟩ |
        ⟨answer, notLast, comes⟩
    · rw [comes]
      intro row member readable missing
      obtain ⟨past, unpassed⟩ := whole row member readable missing
      obtain ⟨fromBelow, -⟩ := fits row member readable past
      exact ⟨past, by omega, (ask_table answer).2.2.2 row member⟩
    · rw [comes]
      intro row member readable missing
      obtain ⟨past, unpassed⟩ := whole row member readable missing
      have probed := probe_of_ask answer
      obtain ⟨rowid, found⟩ := (fits row member readable past).2
        (table.probe_nothing probed row member)
      rw [probed] at found
      cases found
    · rw [comes]
      intro row member readable missing
      obtain ⟨past, unpassed⟩ := whole row member readable missing
      have isRowid := (table.isRowid row member).2
      have notKey := ne_of_refused answer member readable past
      obtain ⟨rowid, found⟩ := (fits row member readable past).2 (by omega)
      rw [not_refused found past (by omega)] at answer
      cases answer
    · rw [comes]
      intro row member readable missing
      obtain ⟨past, unpassed⟩ := whole row member readable missing
      have notKey := ne_of_refused answer member readable past
      refine ⟨past, .inr ?_⟩
      by_contra notBefore
      have before : row.1 < saturate (floor + step) := by omega
      obtain ⟨rowid, found⟩ := (fits row member readable past).2 before
      rw [not_refused found past before] at answer
      cases answer
  | bisecting walked failedAt hi found =>
    obtain ⟨notPast, pastFound, isRow, above, isFirst⟩ := sound.bisecting _ _ _ _ phase
    simp only [Fits, phase] at fits
    simp only [Whole, Ahead, phase] at whole
    rcases bisectingStep table.engine phase with
      ⟨rowid, wide, answer, comes⟩ | ⟨wide, answer, comes⟩ | ⟨wide, answer, comes⟩ |
        ⟨narrow, comes⟩
    · rw [comes]
      intro row member readable missing
      obtain ⟨past, after, back⟩ := whole row member readable missing
      exact ⟨past, after, (ask_table answer).2.2.2 row member⟩
    · exact absurd answer (not_nothing wide isRow above)
    · rw [comes]
      intro row member readable missing
      obtain ⟨past, after, back⟩ := whole row member readable missing
      have notKey := ne_of_refused answer member readable past
      refine ⟨past, ?_, back⟩
      by_contra notBefore
      have before : row.1 < middle failedAt hi := by omega
      obtain ⟨rowid, found⟩ := fits wide row member readable past before
      rw [not_refused found past before] at answer
      cases answer
    · rw [comes]
      intro row member readable missing
      obtain ⟨past, after, back⟩ := whole row member readable missing
      exact ⟨back (by omega), by
        show state.last < row.1 ∨ _
        omega⟩
  | finished =>
    rw [step_returned (by simp [CopyState.hasReturned, phase])]
    exact whole
  | writeFailed => exact absurd phase sound.wrote

/-! ### What is lost -/

/-- The copy has gone past a rowid. -/
def Behind (state : CopyState Values) (rowid : Int) : Prop :=
  match state.phase with
  | .reading => rowid < state.start
  | .doubling _ floor failedAt step => rowid ≤ failedAt ∧ rowid < saturate (floor + step)
  | .bisecting _ failedAt _ found => rowid ≤ failedAt ∧ rowid < found
  | .finished | .writeFailed => True

/-- A readable row that was not written, and that nothing to come reads. -/
def Lost (table : DamagedTable Values) (state : CopyState Values) (row : Int × Values) : Prop :=
  row ∈ table.rows ∧ table.readable row.1 = true ∧ row ∉ state.written ∧ Behind state row.1

theorem lost_readOn (phase : state.phase = .reading) (sound : Sound table state)
    (within : Within state) (lost : Lost table state row) :
    Lost table (state.readOn table.engine) row := by
  obtain ⟨member, readable, missing, behind⟩ := lost
  obtain ⟨read, isLast, -, members⟩ := readOn_table table sound.holds
  simp only [Behind, phase] at behind
  have unread : row ∉ (table.readBatch state.start).1 := by
    intro read
    have above := (table.readBatch_mem read).2.1
    omega
  refine ⟨member, readable, fun written => ?_, ?_⟩
  · rcases (members row).mp written with before | read
    · exact missing before
    · exact unread read
  · have isRowid := table.isRowid row member
    have isStart := within.start
    have isNext := (within_readOn table.engine within).last
    -- A round that got further read a row from its start on.
    have further : (state.readOn table.engine).last = state.last ∨
        state.start ≤ (state.readOn table.engine).last := by
      rw [isLast]
      rcases advance_eq (table.readBatch state.start).1 state.last with same | ⟨other, read, same⟩
      · exact .inl same
      · rw [same]
        exact .inr (table.readBatch_mem read).2.1
    simp only [IsRowid, minRowid, maxRowid] at isRowid isStart isNext
    rcases read with ⟨ended, reached⟩ | ⟨onward, past, start⟩ | ⟨walked, searching, walks⟩
    · simp only [Behind, ended]
    · simp only [Behind, onward, start, saturate, minRowid, maxRowid]
      omega
    · have passed : row.1 < walked := by
        rw [walks]
        split <;> omega
      simp only [Behind, searching, searchFrom, saturate, minRowid, maxRowid]
      rw [walks] at passed ⊢
      split at passed <;> omega

/-- A doubled step reaches no less far. -/
theorem key_le_next {floor failedAt step : Int} (within : Within state)
    (phase : state.phase = .doubling walked floor failedAt step) :
    saturate (floor + step) ≤ saturate (floor + saturate (step * 2)) := by
  obtain ⟨isFloor, one, bound, -, -⟩ := within.doubling _ _ _ _ phase
  simp only [IsRowid, saturate, minRowid, maxRowid] at isFloor bound ⊢
  omega

/-- What is lost stays lost. -/
theorem lost_step (sound : Sound table state) (within : Within state) (lost : Lost table state row) : Lost table (state.step table.engine) row := by
  cases phase : state.phase with
  | reading =>
    rw [step_reading table.engine phase]
    exact lost_readOn phase sound within lost
  | doubling walked floor failedAt step =>
    obtain ⟨member, readable, missing, behind⟩ := lost
    have widens := key_le_next within phase
    simp only [Behind, phase] at behind
    rcases doublingStep table.engine phase with
      ⟨rowid, answer, comes⟩ | ⟨answer, comes⟩ | ⟨answer, isLast, comes⟩ |
        ⟨answer, notLast, comes⟩
    · rw [comes]
      obtain ⟨-, -, above, -⟩ := ask_table answer
      exact ⟨member, readable, missing, behind.1, by omega⟩
    · rw [comes]
      exact ⟨member, readable, missing, trivial⟩
    · rw [comes]
      exact ⟨member, readable, missing, trivial⟩
    · rw [comes]
      exact ⟨member, readable, missing, Int.le_of_lt behind.2, Int.lt_of_lt_of_le behind.2 widens⟩
  | bisecting walked failedAt hi found =>
    obtain ⟨member, readable, missing, behind⟩ := lost
    simp only [Behind, phase] at behind
    rcases bisectingStep table.engine phase with
      ⟨rowid, wide, answer, comes⟩ | ⟨wide, answer, comes⟩ | ⟨wide, answer, comes⟩ |
        ⟨narrow, comes⟩
    · rw [comes]
      obtain ⟨-, -, above, -⟩ := ask_table answer
      refine ⟨member, readable, missing, behind.1, ?_⟩
      simp only [middle] at above
      omega
    · rw [comes]
      exact ⟨member, readable, missing, behind.2⟩
    · rw [comes]
      refine ⟨member, readable, missing, ?_, behind.2⟩
      simp only [middle]
      omega
    · rw [comes]
      exact ⟨member, readable, missing, behind.2⟩
  | finished =>
    rw [step_returned (by simp [CopyState.hasReturned, phase])]
    exact lost
  | writeFailed => exact absurd phase sound.wrote

/-- A row past the walked key was not written. -/
theorem not_written (sound : Sound table state) (notPast : state.last ≤ walked)
    (past : walked < row.1) : row ∉ state.written := by
  intro written
  have below := sound.below row written
  omega

/-- A probe that does not fit loses a row. -/
theorem lost_of_not_fits (sound : Sound table state) (within : Within state)
    (misfit : ¬ Fits table state) : ∃ row, Lost table (state.step table.engine) row := by
  cases phase : state.phase with
  | doubling walked floor failedAt step =>
    obtain ⟨notPast, isFloor⟩ := sound.doubling _ _ _ _ phase
    obtain ⟨floorWithin, one, -, notBelow, -⟩ := within.doubling _ _ _ _ phase
    have widens := key_le_next within phase
    simp only [Fits, phase] at misfit
    push Not at misfit
    obtain ⟨row, member, readable, past, fails⟩ := misfit
    have missing := not_written sound notPast past
    by_cases fromBelow : floor < row.1
    · obtain ⟨before, unanswered⟩ := fails fromBelow
      rcases doublingStep table.engine phase with
        ⟨rowid, answer, comes⟩ | ⟨answer, comes⟩ | ⟨answer, isLast, comes⟩ |
          ⟨answer, notLast, comes⟩
      · exact absurd (ask_found answer).1 (unanswered rowid)
      · rw [comes]
        exact ⟨row, member, readable, missing, trivial⟩
      · rw [comes]
        exact ⟨row, member, readable, missing, trivial⟩
      · rw [comes]
        exact ⟨row, member, readable, missing, Int.le_of_lt before,
          Int.lt_of_lt_of_le before widens⟩
    · -- Only the floor of 0 is above the walked key.
      have zero : floor = 0 := by
        split at isFloor <;> omega
      have passed : row.1 < saturate (floor + step) := by
        simp only [saturate, minRowid, maxRowid]
        omega
      refine ⟨row, lost_step sound within ⟨member, readable, missing, ?_⟩⟩
      simp only [Behind, phase]
      exact ⟨by omega, passed⟩
  | bisecting walked failedAt hi found =>
    obtain ⟨notPast, pastFound, isRow, above, isFirst⟩ := sound.bisecting _ _ _ _ phase
    simp only [Fits, phase] at misfit
    push Not at misfit
    obtain ⟨wide, row, member, readable, past, before, unanswered⟩ := misfit
    have missing := not_written sound notPast past
    rcases bisectingStep table.engine phase with
      ⟨rowid, wide, answer, comes⟩ | ⟨wide, answer, comes⟩ | ⟨wide, answer, comes⟩ |
        ⟨narrow, comes⟩
    · exact absurd (ask_found answer).1 (unanswered rowid)
    · exact absurd answer (not_nothing wide isRow above)
    · rw [comes]
      refine ⟨row, member, readable, missing, Int.le_of_lt before, ?_⟩
      simp only [middle] at before
      omega
    · omega
  | reading => exact absurd (by simp only [Fits, phase]) misfit
  | finished => exact absurd (by simp only [Fits, phase]) misfit
  | writeFailed => exact absurd (by simp only [Fits, phase]) misfit

/-! ### The whole copy -/

/-- The copy of a table after as many steps. -/
def copied (table : DamagedTable Values) (times : Nat) : CopyState Values :=
  (CopyState.step table.engine)^[times] (CopyState.initial [])

theorem copied_succ (times : Nat) :
    copied table (times + 1) = (copied table times).step table.engine :=
  Function.iterate_succ_apply' _ _ _

theorem sound_copied (times : Nat) : Sound table (copied table times) := sound_iterate table times

theorem within_copied (times : Nat) : Within (copied table times) := within_iterate [] times

theorem whole_copied (fits : ∀ times, Fits table (copied table times)) (times : Nat) :
    Whole table (copied table times) := by
  induction times with
  | zero =>
    intro row member readable missing
    exact ⟨(table.isRowid row member).1, .inr rfl⟩
  | succ times inductionHypothesis =>
    rw [copied_succ]
    exact whole_step (sound_copied times) (within_copied times) (fits times) inductionHypothesis

variable {times : Nat}

theorem lost_copied (lost : Lost table (copied table times) row) (more : Nat) :
    Lost table (copied table (times + more)) row := by
  induction more with
  | zero => exact lost
  | succ more inductionHypothesis =>
    rw [← Nat.add_assoc, copied_succ]
    exact lost_step (sound_copied _) (within_copied _) inductionHypothesis

theorem perm_of_whole (sound : Sound table state) (whole : Whole table state)
    (finished : state.phase = .finished) :
    state.written.Perm (table.rows.filter fun row => table.readable row.1) := by
  have distinct : table.rows.Nodup :=
    table.sorted.imp fun before same => absurd (congrArg Prod.fst same) (Int.ne_of_lt before)
  refine (perm_ext_iff_of_nodup (Nodup.of_map _ sound.holds.once)
    (distinct.filter _)).mpr fun row => ?_
  rw [mem_filter]
  constructor
  · exact sound.holds.rows row
  · rintro ⟨member, readable⟩
    by_contra missing
    have ahead := whole row member readable missing
    simp only [Ahead, finished] at ahead

theorem not_finished_of_lost (lost : Lost table (copied table times) row) :
    ¬ (copied table times).written.Perm (table.rows.filter fun row => table.readable row.1) := by
  intro whole
  obtain ⟨member, readable, missing, -⟩ := lost
  exact missing (whole.mem_iff.mpr (mem_filter.mpr ⟨member, readable⟩))

theorem copied_returned (returned : (copied table times).hasReturned = true) (more : Nat) :
    copied table (times + more) = copied table times := by
  rw [copied, Nat.add_comm, Function.iterate_add_apply]
  exact hasReturned_iterate returned more

theorem fits_of_salvages (salvages : Salvages table) (times : Nat) :
    Fits table (copied table times) := by
  by_contra misfit
  obtain ⟨row, lost⟩ := lost_of_not_fits (sound_copied times) (within_copied times) misfit
  rw [← copied_succ] at lost
  obtain ⟨ends, finished, all⟩ := salvages
  have returned : (copied table ends).hasReturned = true := by
    simp [CopyState.hasReturned, copied, finished]
  -- What is lost is lost where the copy ends, sooner or later.
  have there := lost_copied lost ends
  have same : copied table (times + 1 + ends) = copied table ends := by
    rw [Nat.add_comm (times + 1)]
    exact copied_returned returned _
  rw [same] at there
  exact not_finished_of_lost there all

/-- Every readable row of a damaged table is copied, once and with no other row, exactly when each
probe of the copy leaves none behind, and no search that starts from below 0 has all of its probes
refused. -/
theorem salvages_iff (table : DamagedTable Values) :
    Salvages table ↔
      ∀ times, Fits table (copied table times) ∧ ¬ Stuck table.engine (copied table times) := by
  constructor
  · intro salvages times
    refine ⟨fits_of_salvages salvages times, not_stuck_of_comesTo ?_ times⟩
    obtain ⟨ends, finished, -⟩ := salvages
    exact ⟨ends, by simp [CopyState.hasReturned, finished]⟩
  · intro holds
    have returns : ComesTo (CopyState.step table.engine) (fun state => state.hasReturned = true)
        (CopyState.initial []) := comesTo_hasReturned [] fun times => (holds times).2
    obtain ⟨ends, returned⟩ := returns
    have finished := (hasReturned_cases returned).resolve_right (sound_copied ends).wrote
    exact ⟨ends, finished, perm_of_whole (sound_copied ends)
      (whole_copied (fun times => (holds times).1) ends) finished⟩

/-- Seven rows, the fifth and the sixth on a page that is gone. -/
def lastRow : DamagedTable Unit where
  rows := [(1, ()), (2, ()), (3, ()), (4, ()), (5, ()), (6, ()), (7, ())]
  stretches := [⟨5, 6, by decide⟩]
  sorted := by decide
  isRowid := by
    simp [IsRowid, minRowid, maxRowid]

/-- The seventh is lost: the third probe asks from 8, and nothing being there ends the copy. -/
theorem not_salvages_lastRow : ¬ Salvages lastRow := by
  intro salvages
  have fits := fits_of_salvages salvages 3
  have phase : (copied lastRow 3).phase = .doubling 4 4 6 4 := by decide +kernel
  have nothing : lastRow.probe (saturate (4 + 4)) = .nothing := by decide
  simp only [Fits, phase] at fits
  obtain ⟨rowid, found⟩ := (fits (7, ()) (by decide) (by decide) (by decide)).2 (by decide)
  rw [nothing] at found
  cases found

end Oryxis.Rebuild

/-
This file is what becomes of the elements of a list that meet a test, as one element of
the list is taken out or is replaced. Where at most one element meets it, the list of
those that do says all that an invariant needs: it is empty or it is that one.
-/

import Mathlib.Data.List.Basic

namespace Oryxis.Library

open List

variable {α : Type*} {list : List α} {index : Nat} {element : α}

theorem split_of_getElem? (found : list[index]? = some element) :
    ∃ before after, list = before ++ element :: after ∧
      list.eraseIdx index = before ++ after ∧
      ∀ other, list.set index other = before ++ other :: after := by
  obtain ⟨bound, rfl⟩ := List.getElem?_eq_some_iff.mp found
  refine ⟨list.take index, list.drop (index + 1), ?_, ?_, fun other => ?_⟩
  · rw [getElem_cons_drop, take_append_drop]
  · exact eraseIdx_eq_take_drop_succ ..
  · rw [set_eq_take_append_cons_drop, if_pos bound]

variable {test : α → Bool} {only : α}

/-- The only element that meets the test, where another stands before and after it. -/
theorem filter_split_eq_singleton {before after : List α} (meets : test element = true)
    (isOnly : (before ++ element :: after).filter test = [only]) :
    only = element ∧ before.filter test = [] ∧ after.filter test = [] := by
  rw [filter_append, filter_cons, if_pos meets] at isOnly
  obtain ⟨noneBefore, rest⟩ | ⟨-, rest⟩ := append_eq_singleton_iff.mp isOnly
  · obtain ⟨rfl, noneAfter⟩ := cons.inj rest
    exact ⟨rfl, noneBefore, noneAfter⟩
  · cases rest

theorem filter_eraseIdx_of_not (found : list[index]? = some element) (fails : test element = false) : (list.eraseIdx index).filter test = list.filter test := by
  obtain ⟨before, after, split, erased, -⟩ := split_of_getElem? found
  rw [erased, split, filter_append, filter_append, filter_cons,
    if_neg (by rw [fails]; exact Bool.false_ne_true)]

theorem filter_eraseIdx_of_only (found : list[index]? = some element) (meets : test element = true)
    (isOnly : list.filter test = [only]) :
    only = element ∧ (list.eraseIdx index).filter test = [] := by
  obtain ⟨before, after, split, erased, -⟩ := split_of_getElem? found
  rw [split] at isOnly
  obtain ⟨same, noneBefore, noneAfter⟩ := filter_split_eq_singleton meets isOnly
  refine ⟨same, ?_⟩
  rw [erased, filter_append, noneBefore, noneAfter, append_nil]

variable {other : α}

theorem filter_set_of_not (found : list[index]? = some element) (fails : test element = false)
    (otherFails : test other = false) :
    (list.set index other).filter test = list.filter test := by
  obtain ⟨before, after, split, -, set⟩ := split_of_getElem? found
  rw [set, split, filter_append, filter_append, filter_cons, filter_cons,
    if_neg (by rw [otherFails]; exact Bool.false_ne_true),
    if_neg (by rw [fails]; exact Bool.false_ne_true)]

/-- One that comes to meet the test where none did. -/
theorem filter_set_of_none (found : list[index]? = some element) (none : list.filter test = [])
    (otherMeets : test other = true) :
    (list.set index other).filter test = [other] := by
  obtain ⟨before, after, split, -, set⟩ := split_of_getElem? found
  rw [split, filter_append, append_eq_nil_iff, filter_cons] at none
  have noneAfter : after.filter test = [] := by
    have later := none.2
    split at later
    · cases later
    · exact later
  rw [set, filter_append, filter_cons, if_pos otherMeets, none.1, noneAfter,
    nil_append]

theorem filter_set_of_only (found : list[index]? = some element) (meets : test element = true)
    (isOnly : list.filter test = [only]) (other : α) :
    only = element ∧
      (list.set index other).filter test = if test other then [other] else [] := by
  obtain ⟨before, after, split, -, set⟩ := split_of_getElem? found
  rw [split] at isOnly
  obtain ⟨same, noneBefore, noneAfter⟩ := filter_split_eq_singleton meets isOnly
  refine ⟨same, ?_⟩
  rw [set, filter_append, filter_cons, noneBefore, noneAfter, nil_append]

/-- An element that is not the one replaced stays. -/
theorem mem_set_of_mem (found : list[index]? = some element) {one : α} (member : one ∈ list) :
    one = element ∨ one ∈ list.set index other := by
  obtain ⟨before, after, split, -, set⟩ := split_of_getElem? found
  rw [split] at member
  rw [set]
  rcases mem_append.mp member with first | rest
  · exact .inr (mem_append_left _ first)
  · rcases mem_cons.mp rest with same | last
    · exact .inl same
    · exact .inr (mem_append_right _ (mem_cons_of_mem _ last))

theorem length_filter_set (found : list[index]? = some element) (test : α → Bool) (other : α) :
    ((list.set index other).filter test).length + (test element).toNat =
      (list.filter test).length + (test other).toNat := by
  obtain ⟨before, after, split, -, set⟩ := split_of_getElem? found
  have counted : ∀ one, ((before ++ one :: after).filter test).length =
      (before.filter test).length + (test one).toNat + (after.filter test).length := by
    intro one
    rw [filter_append, length_append, filter_cons]
    cases test one with
    | true =>
      rw [if_pos rfl, length_cons, Bool.toNat_true]
      omega
    | false =>
      rw [if_neg Bool.false_ne_true, Bool.toNat_false]
      omega
  rw [set, split, counted, counted]
  omega

end Oryxis.Library

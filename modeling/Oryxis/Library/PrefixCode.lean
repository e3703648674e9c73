/-
This file is codes that tell where they end. A code is prefix free when of two codes with anything
behind them the one read off determines both the value and what is behind: values written one
after the other by such codes can be told apart from the written bytes alone. Codes of a fixed
length, of a length written in front, with a tag or with an end mark are prefix free.
-/

import Oryxis.Library.Cursor
import Oryxis.Library.Utf8

namespace Oryxis.Library

open List

variable {Value Other Letter : Type*}

/-! ### Prefix-free codes -/

/-- Neither of two codes of valid values begins the other. -/
def PrefixFree (valid : Value → Prop) (code : Value → List Letter) : Prop :=
  ∀ ⦃first second : Value⦄ ⦃behind after : List Letter⦄, valid first → valid second →
    code first ++ behind = code second ++ after → first = second ∧ behind = after

section Codes

variable {valid : Value → Prop} {code : Value → List Letter}

theorem prefixFree_of_length {length : Nat} (fixed : ∀ value, (code value).length = length)
    (injective : ∀ {first second}, valid first → valid second → code first = code second →
      first = second) : PrefixFree valid code := by
  intro first second behind after validFirst validSecond same
  obtain ⟨codes, rest⟩ := append_inj same ((fixed first).trans (fixed second).symm)
  exact ⟨injective validFirst validSecond codes, rest⟩

theorem PrefixFree.weaken {other : Value → Prop} (free : PrefixFree valid code)
    (weakens : ∀ value, other value → valid value) : PrefixFree other code :=
  fun _ _ _ _ first second same => free (weakens _ first) (weakens _ second) same

/-- One value and then another. -/
theorem PrefixFree.pair {validOther : Other → Prop} {codeOther : Other → List Letter}
    (free : PrefixFree valid code) (freeOther : PrefixFree validOther codeOther) :
    PrefixFree (fun both : Value × Other => valid both.1 ∧ validOther both.2)
      fun both => code both.1 ++ codeOther both.2 := by
  intro first second behind after validFirst validSecond same
  rw [append_assoc, append_assoc] at same
  obtain ⟨front, same⟩ := free validFirst.1 validSecond.1 same
  obtain ⟨back, rest⟩ := freeOther validFirst.2 validSecond.2 same
  exact ⟨Prod.ext front back, rest⟩

theorem PrefixFree.injective (free : PrefixFree valid code) {first second : Value}
    (validFirst : valid first) (validSecond : valid second) (same : code first = code second) :
    first = second :=
  (free validFirst validSecond (congrArg (· ++ []) same)).1

variable {first second : List Value} {behind after : List Letter}

/-- As many values as there are others. -/
theorem PrefixFree.flatMap (free : PrefixFree valid code) (length : first.length = second.length)
    (validFirst : ∀ value ∈ first, valid value) (validSecond : ∀ value ∈ second, valid value)
    (same : first.flatMap code ++ behind = second.flatMap code ++ after) :
    first = second ∧ behind = after := by
  induction first generalizing second with
  | nil =>
    cases length_eq_zero_iff.mp length.symm
    exact ⟨rfl, same⟩
  | cons value first ih =>
    obtain ⟨other, second, rfl⟩ := exists_cons_of_length_eq_add_one length.symm
    rw [flatMap_cons, flatMap_cons, append_assoc, append_assoc] at same
    obtain ⟨rfl, others⟩ := free (validFirst _ mem_cons_self)
      (validSecond _ mem_cons_self) same
    obtain ⟨rfl, rest⟩ := ih (Nat.succ.inj length)
      (fun value among => validFirst value (mem_cons_of_mem _ among))
      (fun value among => validSecond value (mem_cons_of_mem _ among)) others
    exact ⟨rfl, rest⟩

/-- Values whose number is not written, in front of ends that are shorter than a value and an end
together. -/
theorem PrefixFree.flatMap_of_ends (free : PrefixFree valid code) {shortest : Nat}
    (long : ∀ value, shortest ≤ (code value).length)
    (shorter : behind.length < shortest + after.length)
    (shorter' : after.length < shortest + behind.length) (validFirst : ∀ value ∈ first, valid value)
    (validSecond : ∀ value ∈ second, valid value)
    (same : first.flatMap code ++ behind = second.flatMap code ++ after) :
    first = second ∧ behind = after := by
  -- Past the values they share, one list that goes on would be longer than the other's end.
  have ended {value : Value} {values : List Value} {longer ends : List Letter}
      (short : ends.length < shortest + longer.length) :
      ends ≠ (value :: values).flatMap code ++ longer := by
    intro same
    have lengths := congrArg List.length same
    rw [flatMap_cons, length_append, length_append] at lengths
    have size := long value
    omega
  induction first generalizing second with
  | nil =>
    cases second with
    | nil => exact ⟨rfl, same⟩
    | cons => exact absurd same (ended shorter)
  | cons value first ih =>
    cases second with
    | nil => exact absurd same.symm (ended shorter')
    | cons other second =>
      rw [flatMap_cons, flatMap_cons, append_assoc, append_assoc] at same
      obtain ⟨rfl, others⟩ := free (validFirst _ mem_cons_self)
        (validSecond _ mem_cons_self) same
      obtain ⟨rfl, rest⟩ := ih (fun value among => validFirst value (mem_cons_of_mem _ among))
        (fun value among => validSecond value (mem_cons_of_mem _ among)) others
      exact ⟨rfl, rest⟩

end Codes

/-! ### Numbers -/

/-- The bytes of a number, the least significant one first. -/
def toLe (width number : Nat) : List UInt8 := (toBe width number).reverse

theorem length_toLe (width number : Nat) : (toLe width number).length = width := by
  rw [toLe, length_reverse, length_toBe]

theorem toLe_inj {width first second : Nat} (fits : first < 256 ^ width)
    (fits' : second < 256 ^ width) (same : toLe width first = toLe width second) :
    first = second := by
  have numbers := congrArg fromBe (reverse_inj.mp same)
  rwa [fromBe_toBe fits, fromBe_toBe fits'] at numbers

theorem prefixFree_toLe (width : Nat) :
    PrefixFree (fun number => number < 256 ^ width) (toLe width) :=
  prefixFree_of_length (length_toLe width) toLe_inj

/-! ### Lists, options and texts -/

section Combined

variable {valid : Value → Prop} {code : Value → List UInt8}

/-- The values of a list, with their number in eight bytes in front. -/
def countedCode (code : Value → List UInt8) (values : List Value) : List UInt8 :=
  toLe 8 values.length ++ values.flatMap code

theorem PrefixFree.counted (free : PrefixFree valid code) :
    PrefixFree (fun values : List Value => values.length < 256 ^ 8 ∧ ∀ value ∈ values, valid value)
      (countedCode code) := by
  intro first second behind after validFirst validSecond same
  rw [countedCode, countedCode, append_assoc, append_assoc] at same
  obtain ⟨length, same⟩ := prefixFree_toLe 8 validFirst.1 validSecond.1 same
  exact free.flatMap length validFirst.2 validSecond.2 same

/-- Whether there is a value, in eight bytes, and the value. -/
def optionCode (code : Value → List UInt8) : Option Value → List UInt8
  | none => toLe 8 0
  | some value => toLe 8 1 ++ code value

theorem PrefixFree.option (free : PrefixFree valid code) :
    PrefixFree (fun value? : Option Value => ∀ value ∈ value?, valid value) (optionCode code) := by
  have tags : toLe 8 0 ≠ toLe 8 1 := by decide
  intro first second behind after validFirst validSecond same
  cases first with
  | none =>
    cases second with
    | none => exact ⟨rfl, append_cancel_left same⟩
    | some value =>
      rw [optionCode, optionCode, append_assoc] at same
      exact absurd (append_inj same (by rw [length_toLe, length_toLe])).1 tags
  | some value =>
    cases second with
    | none =>
      rw [optionCode, optionCode, append_assoc] at same
      exact absurd (append_inj same (by rw [length_toLe, length_toLe])).1.symm tags
    | some other =>
      rw [optionCode, optionCode, append_assoc, append_assoc] at same
      obtain ⟨rfl, rest⟩ := free (validFirst value rfl) (validSecond other rfl)
        (append_cancel_left same)
      exact ⟨rfl, rest⟩

def textEnd : UInt8 := 0xFF

/-- The bytes of a text, and one that is in no text. -/
def textCode (text : String) : List UInt8 := utf8Bytes text.toList ++ [textEnd]

theorem textEnd_notMem_utf8Bytes (letters : List Char) : textEnd ∉ utf8Bytes letters := by
  intro member
  obtain ⟨letter, -, within⟩ := mem_flatMap.mp member
  generalize isEnd : textEnd = byte at within
  have value : byte.toNat = 255 := isEnd ▸ rfl
  unfold String.utf8EncodeChar at within
  dsimp only at within
  -- The lead bytes go up to 0xF7, those that continue a letter to 0xBF.
  split_ifs at within
  all_goals
    simp only [mem_cons, not_mem_nil, or_false] at within
    rcases within with rfl | rfl | rfl | rfl
    all_goals
      rw [UInt8.toNat_ofNat'] at value
      omega

/-- Two beginnings without a mark, up to the first mark. -/
theorem append_mark_inj {mark : Letter} {first second behind after : List Letter}
    (unmarked : mark ∉ first) (unmarked' : mark ∉ second)
    (same : first ++ mark :: behind = second ++ mark :: after) :
    first = second ∧ behind = after := by
  induction first generalizing second with
  | nil =>
    cases second with
    | nil => exact ⟨rfl, (cons.inj same).2⟩
    | cons other second =>
      exact absurd (cons.inj same).1 (ne_of_not_mem_cons unmarked')
  | cons letter first ih =>
    cases second with
    | nil => exact absurd (cons.inj same).1.symm (ne_of_not_mem_cons unmarked)
    | cons other second =>
      obtain ⟨rfl, others⟩ := cons.inj same
      obtain ⟨rfl, rest⟩ := ih (not_mem_of_not_mem_cons unmarked)
        (not_mem_of_not_mem_cons unmarked') others
      exact ⟨rfl, rest⟩

theorem prefixFree_textCode : PrefixFree (fun _ => True) textCode := by
  intro first second behind after _ _ same
  rw [textCode, textCode, append_assoc, append_assoc] at same
  obtain ⟨bytes, rest⟩ := append_mark_inj (textEnd_notMem_utf8Bytes _)
    (textEnd_notMem_utf8Bytes _) same
  have letters := congrArg fromUtf8 bytes
  rw [fromUtf8_utf8Bytes, fromUtf8_utf8Bytes] at letters
  exact ⟨String.toList_injective (Option.some.inj letters), rest⟩

end Combined

end Oryxis.Library

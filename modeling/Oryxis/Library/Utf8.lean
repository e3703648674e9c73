/-
This file is text as bytes: the encoding of its letters, how long it is, where it can be cut,
and the decoding that puts a replacement character where bytes are no letter. What was
encoded is decoded to what it was.
-/

import Mathlib.Algebra.Ring.Nat
import Mathlib.Data.List.Basic

namespace Oryxis.Library

open List

/-! ### Encoding -/

def utf8Bytes (letters : List Char) : List UInt8 := letters.flatMap String.utf8EncodeChar

/-- The bytes a text takes. -/
def utf8Len (letters : List Char) : Nat := (letters.map Char.utf8Size).sum

theorem utf8Bytes_append (first second : List Char) :
    utf8Bytes (first ++ second) = utf8Bytes first ++ utf8Bytes second :=
  flatMap_append

theorem utf8Len_append (first second : List Char) :
    utf8Len (first ++ second) = utf8Len first + utf8Len second := by
  rw [utf8Len, map_append, sum_append, utf8Len, utf8Len]

theorem length_utf8Bytes (letters : List Char) : (utf8Bytes letters).length = utf8Len letters := by
  induction letters with
  | nil => rfl
  | cons letter letters inductionHypothesis =>
    rw [utf8Bytes, flatMap_cons, length_append, String.length_utf8EncodeChar, utf8Len,
      map_cons, sum_cons]
    exact congrArg _ inductionHypothesis

/-- A text cut at a byte, if a letter begins there or the text ends. -/
def cutAt : List Char → Nat → Option (List Char × List Char)
  | text, 0 => some ([], text)
  | [], _ + 1 => none
  | letter :: text, offset + 1 =>
    if letter.utf8Size ≤ offset + 1 then
      (cutAt text (offset + 1 - letter.utf8Size)).map fun cut => (letter :: cut.1, cut.2)
    else none

variable {text : List Char}

theorem cutAt_eq_some_iff {first second : List Char} {offset : Nat} :
    cutAt text offset = some (first, second) ↔ text = first ++ second ∧ utf8Len first = offset := by
  induction text generalizing first offset with
  | nil =>
    cases offset with
    | zero =>
      rw [cutAt, Option.some.injEq, Prod.mk.injEq]
      constructor
      · rintro ⟨rfl, rfl⟩
        exact ⟨rfl, rfl⟩
      · rintro ⟨whole, -⟩
        obtain ⟨rfl, rfl⟩ := append_eq_nil_iff.mp whole.symm
        exact ⟨rfl, rfl⟩
    | succ offset =>
      refine iff_of_false (by rw [cutAt]; intro none; cases none) ?_
      rintro ⟨whole, length⟩
      obtain ⟨rfl, rfl⟩ := append_eq_nil_iff.mp whole.symm
      cases length
  | cons letter text inductionHypothesis =>
    have positive := letter.utf8Size_pos
    cases offset with
    | zero =>
      rw [cutAt, Option.some.injEq, Prod.mk.injEq]
      constructor
      · rintro ⟨rfl, rfl⟩
        exact ⟨rfl, rfl⟩
      · rintro ⟨whole, length⟩
        cases first with
        | nil => exact ⟨rfl, whole⟩
        | cons head first =>
          rw [utf8Len, map_cons, sum_cons] at length
          have := head.utf8Size_pos
          omega
    | succ offset =>
      rw [cutAt]
      constructor
      · intro found
        split_ifs at found with fits
        obtain ⟨cut, isCut, same⟩ := Option.map_eq_some_iff.mp found
        cases same
        obtain ⟨whole, length⟩ := inductionHypothesis.mp isCut
        refine ⟨congrArg (letter :: ·) whole, ?_⟩
        rw [utf8Len, map_cons, sum_cons, ← utf8Len, length]
        omega
      · rintro ⟨whole, length⟩
        cases first with
        | nil => cases length
        | cons head first =>
          cases whole
          rw [utf8Len, map_cons, sum_cons, ← utf8Len] at length
          rw [if_pos (by omega), inductionHypothesis.mpr ⟨rfl, by omega⟩, Option.map_some]

theorem toNat_ofNat_byte (byte : UInt8) : (Char.ofNat byte.toNat).toNat = byte.toNat := by
  have fits := byte.toNat_lt
  have valid : byte.toNat.isValidChar := .inl (by omega)
  rw [Char.ofNat, dif_pos valid]
  rfl

variable {letter : Char}

/-- A byte below 0x80 is a letter of its own. -/
theorem toNat_eq_of_mem_utf8EncodeChar {byte : UInt8} (member : byte ∈ String.utf8EncodeChar letter)
    (ascii : byte.toNat < 0x80) :
    letter.val.toNat = byte.toNat := by
  unfold String.utf8EncodeChar at member
  dsimp only at member
  split_ifs at member
  · rw [mem_singleton.mp member, UInt8.toNat_ofNat']
    omega
  -- The bytes of a longer letter are 0x80 and more.
  all_goals
    simp only [mem_cons, not_mem_nil, or_false] at member
    rcases member with rfl | rfl | rfl | rfl
    all_goals
      rw [UInt8.toNat_ofNat'] at ascii
      omega

/-- A letter of one byte is in no other letter. -/
theorem mem_of_mem_utf8Bytes {letters : List Char} {byte : UInt8}
    (member : byte ∈ utf8Bytes letters) (ascii : letter.val.toNat < 0x80)
    (isByte : byte.toNat = letter.val.toNat) : letter ∈ letters := by
  obtain ⟨found, isFound, within⟩ := mem_flatMap.mp member
  have same := toNat_eq_of_mem_utf8EncodeChar within (by omega)
  have isLetter : found = letter :=
    Char.ext (UInt32.toNat_inj.mp (same.trans isByte))
  exact isLetter ▸ isFound

/-! ### Decoding -/

variable {bytes : List UInt8}

/-- What is decoded first is what the bytes begin with. -/
theorem exists_of_utf8DecodeChar? (decoded : bytes.toByteArray.utf8DecodeChar? 0 = some letter) :
    ∃ rest, bytes = String.utf8EncodeChar letter ++ rest := by
  obtain ⟨rest, begins⟩ := ByteArray.exists_of_utf8DecodeChar?_eq_some decoded
  refine ⟨rest.data.toList, ?_⟩
  have lists := congrArg (fun array : ByteArray => array.data.toList) begins
  simpa using lists

/-- The bytes as a text, if they are one. -/
def fromUtf8 (bytes : List UInt8) : Option (List Char) :=
  (String.fromUTF8? bytes.toByteArray).map String.toList

theorem fromUtf8_utf8Bytes (text : List Char) : fromUtf8 (utf8Bytes text) = some text := by
  have encoded : (utf8Bytes text).toByteArray = (String.ofList text).toByteArray :=
    String.toByteArray_ofList.symm
  have decoded : String.fromUTF8? (String.ofList text).toByteArray = some (String.ofList text) :=
    dif_pos (String.ofList text).isValidUTF8
  rw [fromUtf8, encoded, decoded, Option.map_some, String.toList_ofList]

theorem fromUtf8_eq_some_iff :
    fromUtf8 bytes = some text ↔ bytes = utf8Bytes text := by
  constructor
  · intro decoded
    obtain ⟨whole, isWhole, rfl⟩ := Option.map_eq_some_iff.mp decoded
    rw [String.fromUTF8?] at isWhole
    split_ifs at isWhole with valid
    cases isWhole
    have arrays : bytes.toByteArray =
        (utf8Bytes (String.fromUTF8 bytes.toByteArray valid).toList).toByteArray :=
      (String.utf8Encode_toList (b := String.fromUTF8 bytes.toByteArray valid)).symm
    have lists := congrArg (fun array : ByteArray => array.data.toList) arrays
    simpa using lists
  · rintro rfl
    exact fromUtf8_utf8Bytes text

/-- Whether a letter of several bytes can begin so. -/
def beginsLetter (first second : UInt8) : Bool :=
  let inside := 0x80 ≤ second && second ≤ 0xBF
  if first = 0xE0 then 0xA0 ≤ second && second ≤ 0xBF
  else if first = 0xED then 0x80 ≤ second && second ≤ 0x9F
  else if first = 0xF0 then 0x90 ≤ second && second ≤ 0xBF
  else if first = 0xF4 then 0x80 ≤ second && second ≤ 0x8F
  else if 0xE1 ≤ first && first ≤ 0xF3 then inside
  else false

/-- How many bytes one replacement character stands for. -/
def maximalSubpart : List UInt8 → Nat
  | first :: second :: third :: _ =>
    if beginsLetter first second then
      if 0xF0 ≤ first && 0x80 ≤ third && third ≤ 0xBF then 3 else 2
    else 1
  | [first, second] => if beginsLetter first second then 2 else 1
  | _ => 1

def decodeLossy : Nat → List UInt8 → List Char
  | 0, _ => []
  | _ + 1, [] => []
  | fuel + 1, byte :: rest =>
    match (byte :: rest).toByteArray.utf8DecodeChar? 0 with
    | some letter => letter :: decodeLossy fuel ((byte :: rest).drop letter.utf8Size)
    | none =>
      Char.ofNat 0xFFFD :: decodeLossy fuel ((byte :: rest).drop (maximalSubpart (byte :: rest)))

/-- What bytes decode to, with a replacement character for what does not. -/
def fromUtf8Lossy (bytes : List UInt8) : String := String.ofList (decodeLossy bytes.length bytes)

theorem decodeLossy_utf8Bytes (letters : List Char) {fuel : Nat}
    (enough : (utf8Bytes letters).length ≤ fuel) :
    decodeLossy fuel (utf8Bytes letters) = letters := by
  induction letters generalizing fuel with
  | nil => cases fuel <;> rfl
  | cons letter letters inductionHypothesis =>
    have bytes : utf8Bytes (letter :: letters) =
        String.utf8EncodeChar letter ++ utf8Bytes letters := flatMap_cons
    have size : (String.utf8EncodeChar letter).length = letter.utf8Size :=
      String.length_utf8EncodeChar letter
    have positive := letter.utf8Size_pos
    rw [bytes, length_append, size] at enough
    obtain ⟨more, rfl⟩ : ∃ more, fuel = more + 1 := ⟨fuel - 1, by omega⟩
    obtain ⟨byte, rest, begins⟩ : ∃ byte rest,
        String.utf8EncodeChar letter ++ utf8Bytes letters = byte :: rest := by
      refine exists_cons_of_ne_nil fun empty => ?_
      have none := congrArg List.length empty
      rw [length_append, size, length_nil] at none
      omega
    have first : (byte :: rest).toByteArray.utf8DecodeChar? 0 = some letter := by
      rw [← begins, toByteArray_append]
      exact ByteArray.utf8DecodeChar?_utf8EncodeChar_append
    have others : (byte :: rest).drop letter.utf8Size = utf8Bytes letters := by
      rw [← begins, ← size]
      exact drop_left
    rw [bytes, begins, decodeLossy, first]
    simp only [others]
    rw [inductionHypothesis (by omega)]

theorem fromUtf8Lossy_utf8Bytes (name : String) : fromUtf8Lossy (utf8Bytes name.toList) = name := by
  rw [fromUtf8Lossy, decodeLossy_utf8Bytes _ (Nat.le_refl _), String.ofList_toList]

/-- Nothing is decoded but replacement characters and what the bytes have. -/
theorem mem_decodeLossy {fuel : Nat} (member : letter ∈ decodeLossy fuel bytes) :
    letter = Char.ofNat 0xFFFD ∨ ∀ byte ∈ String.utf8EncodeChar letter, byte ∈ bytes := by
  induction fuel generalizing bytes with
  | zero => cases member
  | succ fuel inductionHypothesis =>
    cases bytes with
    | nil => cases member
    | cons first others =>
      rw [decodeLossy] at member
      split at member
      · rename_i found decoded
        obtain ⟨rest, begins⟩ := exists_of_utf8DecodeChar? decoded
        rcases mem_cons.mp member with rfl | later
        · refine .inr fun byte isByte => ?_
          rw [begins]
          exact mem_append_left _ isByte
        · exact (inductionHypothesis later).imp_right fun all byte isByte =>
            mem_of_mem_drop (all byte isByte)
      · rcases mem_cons.mp member with rfl | later
        · exact .inl rfl
        · exact (inductionHypothesis later).imp_right fun all byte isByte =>
            mem_of_mem_drop (all byte isByte)

/-! ### A text in front of more bytes -/

theorem utf8EncodeChar_append_inj {other : Char} {rest after : List UInt8}
    (same : String.utf8EncodeChar letter ++ rest = String.utf8EncodeChar other ++ after) :
    letter = other := by
  have first :=
    ByteArray.utf8DecodeChar?_utf8EncodeChar_append (b := rest.toByteArray) (c := letter)
  have second :=
    ByteArray.utf8DecodeChar?_utf8EncodeChar_append (b := after.toByteArray) (c := other)
  rw [← toByteArray_append] at first second
  rw [same, second] at first
  exact (Option.some.inj first).symm

/-- What the bytes of a text begin with, if it is a text, is the beginning of the text. -/
theorem exists_append_of_utf8Bytes {whole : List Char}
    (same : utf8Bytes text ++ bytes = utf8Bytes whole) : ∃ more, whole = text ++ more := by
  induction text generalizing whole with
  | nil => exact ⟨whole, rfl⟩
  | cons letter text inductionHypothesis =>
    rw [utf8Bytes, flatMap_cons, append_assoc] at same
    cases whole with
    | nil =>
      have none := (append_eq_nil_iff.mp same).1
      exact absurd none String.utf8EncodeChar_ne_nil
    | cons other whole =>
      have here : letter = other := utf8EncodeChar_append_inj same
      subst here
      obtain ⟨more, rfl⟩ := inductionHypothesis (append_cancel_left same)
      exact ⟨more, rfl⟩

end Oryxis.Library

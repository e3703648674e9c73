/-
This file is text that arrives byte by byte: a letter is taken when its last byte is there,
and what is no letter is dropped. Whatever came before, the bytes of a letter give it.
-/

import Oryxis.Library.Utf8

namespace Oryxis.Library

/-! ### One byte -/

/-- How many bytes the first byte of a letter announces. -/
def announced (first : UInt8) : Option Nat :=
  if first < 0x80 then some 1
  else if first >>> 5 = 0b110 then some 2
  else if first >>> 4 = 0b1110 then some 3
  else if first >>> 3 = 0b11110 then some 4
  else none

/-- A byte that only stands behind the first byte of a letter. -/
def Continues (byte : UInt8) : Prop := byte &&& 0xc0 = 0x80
  deriving Decidable

/-- What is kept of the bytes of one letter, and what they give. -/
def settle (bytes : List UInt8) : List UInt8 × List Char :=
  match bytes.head?.bind announced with
  | none => ([], [])
  | some size => if bytes.length < size then (bytes, []) else ([], (fromUtf8 bytes).getD [])

def decodeByte (pending : List UInt8) (byte : UInt8) : List UInt8 × List Char :=
  if pending ≠ [] ∧ Continues byte then settle (pending ++ [byte]) else settle [byte]

/-- Bytes behind an unfinished letter: what is unfinished then, and the letters. -/
def decodeFrom (pending : List UInt8) : List UInt8 → List UInt8 × List Char
  | [] => (pending, [])
  | byte :: bytes =>
    let first := decodeByte pending byte
    let rest := decodeFrom first.1 bytes
    (rest.1, first.2 ++ rest.2)

/-- The letters of a stream of bytes. -/
def decodeAll (bytes : List UInt8) : List Char := (decodeFrom [] bytes).2

theorem decodeFrom_append (pending first second : List UInt8) :
    decodeFrom pending (first ++ second) =
      ((decodeFrom (decodeFrom pending first).1 second).1,
        (decodeFrom pending first).2 ++ (decodeFrom (decodeFrom pending first).1 second).2) := by
  induction first generalizing pending with
  | nil => rfl
  | cons byte first inductionHypothesis =>
    rw [List.cons_append, decodeFrom, inductionHypothesis, decodeFrom]
    dsimp only
    rw [List.append_assoc]

/-! ### A whole letter -/

theorem continues_iff (byte : UInt8) : Continues byte ↔ byte.toNat / 64 = 2 := by
  have all : ∀ value : Fin 256, UInt8.ofNat value.val &&& 0xc0 = 0x80 ↔ value.val / 64 = 2 := by
    decide +kernel
  have here := all ⟨byte.toNat, byte.toNat_lt⟩
  rwa [UInt8.ofNat_toNat] at here

theorem announced_eq (byte : UInt8) :
    announced byte =
      if byte.toNat < 0x80 then some 1
      else if byte.toNat / 32 = 6 then some 2
      else if byte.toNat / 16 = 14 then some 3
      else if byte.toNat / 8 = 30 then some 4
      else none := by
  have all : ∀ value : Fin 256, announced (UInt8.ofNat value.val) =
      if value.val < 0x80 then some 1
      else if value.val / 32 = 6 then some 2
      else if value.val / 16 = 14 then some 3
      else if value.val / 8 = 30 then some 4
      else none := by
    decide +kernel
  have here := all ⟨byte.toNat, byte.toNat_lt⟩
  rwa [UInt8.ofNat_toNat] at here

/-- A byte below 0x80 is a letter, whatever is unfinished. -/
theorem decodeByte_ascii (pending : List UInt8) {byte : UInt8} (ascii : byte.toNat < 0x80) :
    decodeByte pending byte = ([], [Char.ofNat byte.toNat]) := by
  have code : (Char.ofNat byte.toNat).val.toNat = byte.toNat := toNat_ofNat_byte byte
  have begins : ¬ Continues byte := by
    rw [continues_iff]
    omega
  have size : announced byte = some 1 := by rw [announced_eq, if_pos ascii]
  have decoded : fromUtf8 [byte] = some [Char.ofNat byte.toNat] := by
    rw [fromUtf8_eq_some_iff, utf8Bytes, List.flatMap_cons, List.flatMap_nil, List.append_nil,
      String.utf8EncodeChar, code, if_pos (by omega), UInt8.ofNat_toNat]
  rw [decodeByte, if_neg (fun both => begins both.2), settle, List.head?_cons, Option.bind_some,
    size]
  dsimp only
  rw [if_neg (by simp), decoded]
  rfl

end Oryxis.Library

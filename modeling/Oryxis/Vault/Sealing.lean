/-
This file is how a field is sealed at rest: a tag, a random nonce and what the
cipher makes of the plain text under a key that was derived from the master
password once, at unlock.

The cipher, the password hash and the two text encodings are code outside this
repository. `Primitives` is what the vault relies on there; that a sealed text
opens under no other key is what it relies on a cipher of this kind for.
-/

import Mathlib.Data.String.Basic

namespace Oryxis

open List

abbrev Bytes := List UInt8

structure KdfParams where
  mKib : Nat
  t : Nat
  p : Nat
  deriving DecidableEq, Repr

/-- The untuned parameters. -/
def KdfParams.default : KdfParams := ⟨19456, 2, 1⟩

def saltLen : Nat := 32

def nonceLen : Nat := 12

/-- The cipher's own addition to a plain text. -/
def tagLen : Nat := 16

structure Salt where
  bytes : Bytes
  length_eq : bytes.length = saltLen

structure Nonce where
  bytes : Bytes
  length_eq : bytes.length = nonceLen

inductive RekeyError where
  | engine
  | columnType
  | locked
  | invalidPassword
  | crypto (message : String)
  deriving DecidableEq, Repr

/-- The cipher, the password hash and the encodings, as the vault relies on them. -/
structure Primitives (Key : Type) where
  encrypt : Key → Bytes → Bytes → Option Bytes
  decrypt : Key → Bytes → Bytes → Option Bytes
  hashPassword : KdfParams → Bytes → Bytes → Option Key
  encodeBase64 : Bytes → String
  decodeBase64 : String → Option Bytes
  toJson : KdfParams → Option String
  fromJson : String → Option KdfParams
  decrypt_encrypt : ∀ {key nonce plain text}, encrypt key nonce plain = some text →
    decrypt key nonce text = some plain
  length_encrypt : ∀ {key nonce plain text}, encrypt key nonce plain = some text →
    text.length = plain.length + tagLen
  authentic : ∀ {key nonce plain text other opened}, encrypt key nonce plain = some text →
    decrypt other nonce text = some opened → other = key
  decodeBase64_encodeBase64 : ∀ bytes, decodeBase64 (encodeBase64 bytes) = some bytes
  fromJson_toJson : ∀ {params json}, toJson params = some json → fromJson json = some params

def lettersOfBytes (bytes : Bytes) : String :=
  String.ofList (bytes.map fun byte => Char.ofNat byte.toNat)

def bytesOfLetters (text : String) : Option Bytes :=
  some (text.toList.map fun letter => letter.toNat.toUInt8)

theorem toNat_charOfNat {code : Nat} (small : code < 256) : (Char.ofNat code).toNat = code := by
  have valid : code.isValidChar := .inl (by omega)
  rw [Char.ofNat, dif_pos valid]
  rfl

theorem bytesOfLetters_lettersOfBytes (bytes : Bytes) :
    bytesOfLetters (lettersOfBytes bytes) = some bytes := by
  have each : ∀ byte : UInt8, (Char.ofNat byte.toNat).toNat.toUInt8 = byte := by
    intro byte
    rw [toNat_charOfNat byte.toNat_lt]
    exact UInt8.ofNat_toNat
  simp [bytesOfLetters, lettersOfBytes, Function.comp_def, each]

/-- Primitives whose cipher writes its one-byte key in front of the plain text. -/
def Primitives.symbolic : Primitives UInt8 where
  encrypt key _ plain := some (List.replicate tagLen key ++ plain)
  decrypt key _ text :=
    if text.take tagLen = List.replicate tagLen key then some (text.drop tagLen) else none
  hashPassword _ password _ := some (password.foldl (fun sum byte => sum * 31 + byte) 7)
  encodeBase64 := lettersOfBytes
  decodeBase64 := bytesOfLetters
  toJson params :=
    if params = KdfParams.default then some "\x7b\"m_kib\":19456,\"t\":2,\"p\":1\x7d" else none
  fromJson _ := some KdfParams.default
  decrypt_encrypt isText := by
    cases isText
    simp
  length_encrypt isText := by
    cases isText
    simp [Nat.add_comm]
  authentic isText opened := by
    cases isText
    split at opened
    · rename_i same
      simpa [tagLen, replicate_succ] using same.symm
    · cases opened
  decodeBase64_encodeBase64 := bytesOfLetters_lettersOfBytes
  fromJson_toJson isJson := by
    split at isJson
    · rename_i same
      rw [same]
    · cases isJson

/-- The tag of a field that was sealed under a derived key. -/
def fieldFormatV2 : UInt8 := 2

/-- What the `password_check` row seals. -/
def checkPlain : Bytes := "oryxis_vault_ok".toList.map fun letter => letter.toNat.toUInt8

variable {Key : Type} (primitives : Primitives Key)

/-- `nonce` is what the operating system's generator returned. -/
def encryptWithKey (nonce : Option Nonce) (plain : Bytes) (key : Key) : Except RekeyError Bytes :=
  match nonce with
  | none => .error (.crypto "OS RNG")
  | some nonce =>
    match primitives.encrypt key nonce.bytes plain with
    | none => .error (.crypto "Encrypt")
    | some text => .ok (fieldFormatV2 :: (nonce.bytes ++ text))

def decryptWithKey (data : Bytes) (key : Key) : Except RekeyError Bytes :=
  if data.length < 1 + nonceLen + tagLen ∨ data.head? ≠ some fieldFormatV2 then
    .error (.crypto "not a derived-key field")
  else
    match primitives.decrypt key ((data.drop 1).take nonceLen) (data.drop (1 + nonceLen)) with
    | none => .error .invalidPassword
    | some plain => .ok plain

/-- The older format, with a salt of its own in every field. -/
def decryptLegacy (data password : Bytes) : Except RekeyError Bytes :=
  if data.length < saltLen + nonceLen + tagLen then .error (.crypto "Data too short")
  else
    match primitives.hashPassword KdfParams.default password (data.take saltLen) with
    | none => .error (.crypto "Argon2 error")
    | some key =>
      match primitives.decrypt key ((data.drop saltLen).take nonceLen)
          (data.drop (saltLen + nonceLen)) with
      | none => .error .invalidPassword
      | some plain => .ok plain

/-- Whether a stored check value was sealed under a derived key: both formats have one length. -/
def checkIsDerivedKeyFormat (check : Bytes) : Bool :=
  decide (check.head? = some fieldFormatV2) &&
    decide (check.length = 1 + nonceLen + checkPlain.length + tagLen)

/-! ### Sealing and opening -/

variable {primitives}

variable {nonce : Option Nonce} {plain bytes : Bytes} {key : Key}

theorem encryptWithKey_eq_ok (isSealed : encryptWithKey primitives nonce plain key = .ok bytes) :
    ∃ drawn text, nonce = some drawn ∧ primitives.encrypt key drawn.bytes plain = some text ∧
      bytes = fieldFormatV2 :: (drawn.bytes ++ text) := by
  unfold encryptWithKey at isSealed
  split at isSealed
  · cases isSealed
  · rename_i drawn
    split at isSealed
    · cases isSealed
    · rename_i text encrypted
      exact ⟨drawn, text, rfl, encrypted, (Except.ok.inj isSealed).symm⟩

theorem length_encryptWithKey (isSealed : encryptWithKey primitives nonce plain key = .ok bytes) :
    bytes.length = 1 + nonceLen + plain.length + tagLen := by
  obtain ⟨drawn, text, _, encrypted, rfl⟩ := encryptWithKey_eq_ok isSealed
  rw [length_cons, length_append, drawn.length_eq, primitives.length_encrypt encrypted]
  omega

/-- What was sealed is handed to the cipher as it came from there. -/
theorem decryptWithKey_sealed {drawn : Nonce} {text : Bytes} (long : tagLen ≤ text.length)
    (key : Key) : decryptWithKey primitives (fieldFormatV2 :: (drawn.bytes ++ text)) key =
      match primitives.decrypt key drawn.bytes text with
      | none => .error .invalidPassword
      | some plain => .ok plain := by
  have size := drawn.length_eq
  have head : (List.drop 1 (fieldFormatV2 :: (drawn.bytes ++ text))).take nonceLen = drawn.bytes := by
    rw [drop_one, tail_cons, take_append_of_le_length (by omega), ← size,
      take_length]
  have tail : List.drop (1 + nonceLen) (fieldFormatV2 :: (drawn.bytes ++ text)) = text := by
    rw [Nat.add_comm, drop_succ_cons, ← size, drop_left]
  rw [decryptWithKey, head, tail, if_neg]
  simp only [length_cons, length_append, size, head?_cons, ne_eq, not_true_eq_false,
    or_false]
  omega

theorem decryptWithKey_encryptWithKey
    (isSealed : encryptWithKey primitives nonce plain key = .ok bytes) :
    decryptWithKey primitives bytes key = .ok plain := by
  obtain ⟨drawn, text, _, encrypted, rfl⟩ := encryptWithKey_eq_ok isSealed
  rw [decryptWithKey_sealed, primitives.decrypt_encrypt encrypted]
  rw [primitives.length_encrypt encrypted]
  exact Nat.le_add_left ..

/-- What was sealed under a key opens under no other. -/
theorem key_of_decryptWithKey {opened : Bytes} {other : Key}
    (isSealed : encryptWithKey primitives nonce plain key = .ok bytes)
    (opens : decryptWithKey primitives bytes other = .ok opened) : other = key := by
  obtain ⟨drawn, text, _, encrypted, rfl⟩ := encryptWithKey_eq_ok isSealed
  rw [decryptWithKey_sealed] at opens
  · split at opens
    · cases opens
    · rename_i decrypted
      exact primitives.authentic encrypted decrypted
  · rw [primitives.length_encrypt encrypted]
    exact Nat.le_add_left ..

end Oryxis

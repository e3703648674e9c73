/-
This file is the one-time codes for two-factor logins: what is accepted as a secret and the
code at a time.

The input is a secret or an `otpauth://` address, told apart by the first ten bytes. Taking
those bytes fails when a letter lies across their end, and on nothing else. The codes of
whatever is accepted are the truncated values of RFC 4226. The digests and the decoding of
Base32 are parameters.
-/

import Oryxis.Library.Decimal
import Oryxis.Library.Text
import Oryxis.Library.Utf8

namespace Oryxis.Login

open Library

inductive TotpError where
  | empty
  | badBase32
  | notTotp
  | missingSecret
  | badAlgorithm (name : List Char)
  | badDigits
  | badPeriod

inductive TotpAlgorithm where
  | sha1
  | sha256
  | sha512

/-- The bytes of a digest. -/
def TotpAlgorithm.outputSize : TotpAlgorithm → Nat
  | .sha1 => 20
  | .sha256 => 32
  | .sha512 => 64

structure Totp where
  key : List UInt8
  digits : Nat
  period : Nat
  algorithm : TotpAlgorithm

/-- A keyed digest for every algorithm. -/
abbrev HmacDigest :=
  (algorithm : TotpAlgorithm) → (key data : List UInt8) → Vector UInt8 algorithm.outputSize

section Parsing

/-! ### What is accepted -/

variable (base32NopadDecode : List UInt8 → Option (List UInt8))

def decodeBase32 (text : List Char) : Except TotpError (List UInt8) :=
  let cleaned := (text.filter fun c => !isWhitespace c && c ≠ '-').map Char.toUpper
  let cleaned := cleaned.rdropWhile (· = '=')
  if cleaned.isEmpty then .error .empty
  else (base32NopadDecode (utf8Bytes cleaned)).elim (.error .badBase32) .ok

/-- The parameters of an address as they are read from left to right. -/
structure Parameters where
  secret : Option (List Char)
  digits : Nat
  period : Nat
  algorithm : TotpAlgorithm

def Parameters.default : Parameters := ⟨none, 6, 30, .sha1⟩

def algorithmNamed (name : List Char) : Except TotpError TotpAlgorithm :=
  let name := name.map Char.toUpper
  if name = "SHA1".toList then .ok .sha1
  else if name = "SHA256".toList then .ok .sha256
  else if name = "SHA512".toList then .ok .sha512
  else .error (.badAlgorithm name)

/-- Unknown parameters are ignored. -/
def Parameters.read (parameters : Parameters) (pair : List Char) : Except TotpError Parameters :=
  let (k, v) := (splitOnce '=' pair).getD (pair, [])
  if eqIgnoreAsciiCase k "secret".toList then .ok { parameters with secret := some v }
  else if eqIgnoreAsciiCase k "digits".toList then
    (parseUnsigned (2 ^ 32) v).elim (.error .badDigits) fun digits =>
      .ok { parameters with digits := digits }
  else if eqIgnoreAsciiCase k "period".toList then
    (parseUnsigned (2 ^ 64) v).elim (.error .badPeriod) fun period =>
      .ok { parameters with period := period }
  else if eqIgnoreAsciiCase k "algorithm".toList then
    (algorithmNamed v).map fun algorithm => { parameters with algorithm := algorithm }
  else .ok parameters

/-- The configuration that the parameters are, with their bounds. -/
def Parameters.finish (parameters : Parameters) : Except TotpError Totp :=
  if ¬(6 ≤ parameters.digits ∧ parameters.digits ≤ 10) then .error .badDigits
  else if parameters.period = 0 then .error .badPeriod
  else match parameters.secret with
    | none => .error .missingSecret
    | some secret =>
      (decodeBase32 base32NopadDecode secret).map fun key =>
        ⟨key, parameters.digits, parameters.period, parameters.algorithm⟩

/-- The address behind `otpauth://`. -/
def parseOtpauth (rest : List Char) : Except TotpError Totp :=
  match splitOnce '/' rest with
  | none => .error .notTotp
  | some (ty, rest) =>
    if !eqIgnoreAsciiCase ty "totp".toList then .error .notTotp
    else
      let query := ((splitOnce '?' rest).map Prod.snd).getD []
      ((query.splitOnP (· = '&')).foldlM Parameters.read .default).bind fun parameters =>
        parameters.finish base32NopadDecode

/-- What the input is accepted as, and `none` where taking its first ten bytes fails. -/
def Totp.parse (input : String) : Option (Except TotpError Totp) :=
  let input := (trim input).toList
  if input.isEmpty then some (.error .empty)
  else
    let bare := (decodeBase32 base32NopadDecode input).map fun key => ⟨key, 6, 30, .sha1⟩
    if 10 ≤ Library.utf8Len input then
      (cutAt input 10).map fun (scheme, rest) =>
        if eqIgnoreAsciiCase scheme "otpauth://".toList then parseOtpauth base32NopadDecode rest
        else bare
    else some bare

end Parsing

/-! ### Codes -/

/-- The eight bytes of a counter, the highest first. -/
def beBytes (value : UInt64) : List UInt8 :=
  [(value >>> 56).toUInt8, (value >>> 48).toUInt8, (value >>> 40).toUInt8, (value >>> 32).toUInt8,
    (value >>> 24).toUInt8, (value >>> 16).toUInt8, (value >>> 8).toUInt8, value.toUInt8]

/-- Four bytes without their highest bit. -/
def truncatedBinary (first second third fourth : UInt8) : UInt32 :=
  ((first &&& 0x7f).toUInt32 <<< 24) ||| (second.toUInt32 <<< 16) ||| (third.toUInt32 <<< 8) |||
    fourth.toUInt32

/-- The truncation of a digest; `none` where a byte is outside it. -/
def dynamicTruncation (hash : List UInt8) : Option UInt32 := do
  let last ← hash[hash.length - 1]?
  let offset := (last &&& 0x0f).toNat
  let first ← hash[offset]?
  let second ← hash[offset + 1]?
  let third ← hash[offset + 2]?
  let fourth ← hash[offset + 3]?
  return truncatedBinary first second third fourth

/-- The code at a time; `none` where the period is zero or a byte is outside the digest. -/
def Totp.codeAt (totp : Totp) (hmacDigest : HmacDigest) (unixSecs : UInt64) :
    Option (List Char) :=
  if totp.period = 0 then none
  else
    let counter := beBytes (.ofNat (unixSecs.toNat / totp.period))
    (dynamicTruncation (hmacDigest totp.algorithm totp.key counter).toList).map fun binary =>
      zeroPadded totp.digits (binary.toNat % 10 ^ min totp.digits 10)

/-- The truncated value of RFC 4226: the low half of the last byte says where four bytes are
taken, and the highest bit of the number they are is left out. -/
def truncatedValue (hash : List UInt8) : Nat :=
  let offset := (hash.getLast?.getD 0).toNat % 16
  ((hash.drop offset).take 4).foldl (fun value byte => value * 256 + byte.toNat) 0 % 2 ^ 31

/-- What the bounds of the parameters leave. -/
structure Totp.Accepted (totp : Totp) : Prop where
  fewest : 6 ≤ totp.digits
  most : totp.digits ≤ 10
  period : totp.period ≠ 0

section

variable {base32NopadDecode : List UInt8 → Option (List UInt8)}

variable {totp : Totp}

theorem Parameters.finish_accepted {parameters : Parameters}
    (finished : parameters.finish base32NopadDecode = .ok totp) : totp.Accepted := by
  rw [finish] at finished
  by_cases bounds : 6 ≤ parameters.digits ∧ parameters.digits ≤ 10
  · rw [if_neg (not_not.mpr bounds)] at finished
    split_ifs at finished with zero
    split at finished
    · cases finished
    · rename_i secret isSecret
      cases decoded : decodeBase32 base32NopadDecode secret with
      | error error =>
        rw [decoded] at finished
        cases finished
      | ok key =>
        rw [decoded] at finished
        cases finished
        exact ⟨bounds.1, bounds.2, zero⟩
  · rw [if_pos bounds] at finished
    cases finished

theorem accepted_of_parseOtpauth {rest : List Char}
    (parsed : parseOtpauth base32NopadDecode rest = .ok totp) : totp.Accepted := by
  rw [parseOtpauth] at parsed
  split at parsed
  · cases parsed
  · split_ifs at parsed with other
    dsimp only at parsed
    generalize List.foldlM Parameters.read _ _ = read at parsed
    cases read with
    | error error => cases parsed
    | ok parameters => exact Parameters.finish_accepted parsed

variable {input : String}

theorem Totp.accepted_of_parse (parsed : parse base32NopadDecode input = some (.ok totp)) :
    totp.Accepted := by
  have bare {text : List Char}
      (decoded : (decodeBase32 base32NopadDecode text).map
        (fun key => (⟨key, 6, 30, .sha1⟩ : Totp)) = .ok totp) : totp.Accepted := by
    generalize decodeBase32 base32NopadDecode text = key at decoded
    cases key with
    | error error => cases decoded
    | ok key =>
      cases decoded
      exact ⟨Nat.le_refl 6, Nat.le_add_right 6 4, Nat.succ_ne_zero 29⟩
  simp only [parse] at parsed
  split_ifs at parsed with empty long
  · cases parsed
  · obtain ⟨parts, -, taken⟩ := Option.map_eq_some_iff.mp parsed
    split_ifs at taken with address
    · exact accepted_of_parseOtpauth taken
    · exact bare taken
  · exact bare (Option.some.inj parsed)

/-- What fails is the taking of the first ten bytes. -/
theorem Totp.parse_ne_none_iff :
    parse base32NopadDecode input ≠ none ↔
      Library.utf8Len (trim input).toList < 10 ∨
        ∃ first rest, (trim input).toList = first ++ rest ∧ Library.utf8Len first = 10 := by
  generalize isText : (trim input).toList = text
  rw [parse]
  dsimp only
  rw [isText]
  split_ifs with empty long
  · refine iff_of_true (by intro same; cases same) (.inl ?_)
    rw [List.isEmpty_iff.mp empty]
    decide
  · rw [ne_eq, Option.map_eq_none_iff, ← ne_eq, Option.ne_none_iff_exists']
    constructor
    · rintro ⟨⟨first, rest⟩, cut⟩
      exact .inr ⟨first, rest, cutAt_eq_some_iff.mp cut⟩
    · rintro (short | ⟨first, rest, cut⟩)
      · exact absurd short (Nat.not_lt.mpr long)
      · exact ⟨(first, rest), cutAt_eq_some_iff.mpr cut⟩
  · exact iff_of_true (by intro same; cases same) (.inl (Nat.lt_of_not_le long))

end

/-! ### The truncated value -/

/-- A word above the bits of another is added by an or. -/
theorem toNat_shiftLeft_or {high low : UInt32} {shift : Nat} (small : shift < 32)
    (highFits : high.toNat < 2 ^ (32 - shift)) (lowFits : low.toNat < 2 ^ shift) :
    (high <<< UInt32.ofNat shift ||| low).toNat = high.toNat * 2 ^ shift + low.toNat := by
  have shifted : (UInt32.ofNat shift).toNat % 32 = shift := by
    rw [UInt32.toNat_ofNat']
    omega
  have inside : high.toNat * 2 ^ shift < 2 ^ 32 := by
    calc high.toNat * 2 ^ shift < 2 ^ (32 - shift) * 2 ^ shift :=
          Nat.mul_lt_mul_of_pos_right highFits (Nat.two_pow_pos shift)
      _ = 2 ^ 32 := by rw [← Nat.pow_add, Nat.sub_add_cancel (Nat.le_of_lt small)]
  rw [UInt32.toNat_or, UInt32.toNat_shiftLeft, shifted, Nat.shiftLeft_eq,
    Nat.mod_eq_of_lt inside, ← Nat.shiftLeft_eq, Nat.shiftLeft_add_eq_or_of_lt lowFits]

theorem toNat_truncatedBinary (first second third fourth : UInt8) :
    (truncatedBinary first second third fourth).toNat =
      ((((first.toNat * 256 + second.toNat) * 256 + third.toNat) * 256 + fourth.toNat)) % 2 ^ 31 := by
  have masked : (first &&& 0x7f).toUInt32.toNat = first.toNat % 2 ^ 7 := by
    rw [UInt8.toNat_toUInt32, UInt8.toNat_and]
    exact Nat.and_two_pow_sub_one_eq_mod _ 7
  have firstFits := first.toNat_lt
  have secondFits := second.toNat_lt
  have thirdFits := third.toNat_lt
  have fourthFits := fourth.toNat_lt
  have lowest : (third.toUInt32 <<< 8 ||| fourth.toUInt32).toNat =
      third.toNat * 2 ^ 8 + fourth.toNat := by
    refine (toNat_shiftLeft_or (by decide) ?_ ?_).trans ?_ <;>
      simp only [UInt8.toNat_toUInt32] <;> omega
  have lower : (second.toUInt32 <<< 16 ||| (third.toUInt32 <<< 8 ||| fourth.toUInt32)).toNat =
      second.toNat * 2 ^ 16 + (third.toNat * 2 ^ 8 + fourth.toNat) := by
    refine (toNat_shiftLeft_or (by decide) ?_ ?_).trans ?_ <;>
      simp only [UInt8.toNat_toUInt32, lowest] <;> omega
  have whole : ((first &&& 0x7f).toUInt32 <<< UInt32.ofNat 24 |||
      (second.toUInt32 <<< 16 ||| (third.toUInt32 <<< 8 ||| fourth.toUInt32))).toNat = _ :=
    toNat_shiftLeft_or (by decide) (by rw [masked]; omega) (by rw [lower]; omega)
  rw [masked, lower] at whole
  rw [truncatedBinary, UInt32.or_assoc, UInt32.or_assoc]
  rw [show (24 : UInt32) = UInt32.ofNat 24 from rfl, whole]
  omega

theorem exists_four {bytes : List UInt8} {offset : Nat} (inside : offset + 3 < bytes.length) :
    ∃ first second third fourth,
      bytes[offset]? = some first ∧ bytes[offset + 1]? = some second ∧
        bytes[offset + 2]? = some third ∧ bytes[offset + 3]? = some fourth ∧
        (bytes.drop offset).take 4 = [first, second, third, fourth] := by
  refine ⟨bytes[offset], bytes[offset + 1], bytes[offset + 2], bytes[offset + 3],
    List.getElem?_eq_getElem _, List.getElem?_eq_getElem _, List.getElem?_eq_getElem _,
    List.getElem?_eq_getElem _, ?_⟩
  rw [List.drop_eq_getElem_cons (by omega), List.drop_eq_getElem_cons (by omega),
    List.drop_eq_getElem_cons (by omega), List.drop_eq_getElem_cons (by omega)]
  rfl

/-- A digest of sixteen bytes and three more is truncated to the value of RFC 4226. -/
theorem exists_dynamicTruncation {hash : List UInt8} (long : 19 ≤ hash.length) :
    ∃ binary, dynamicTruncation hash = some binary ∧ binary.toNat = truncatedValue hash := by
  obtain ⟨last, isLast⟩ : ∃ last, hash[hash.length - 1]? = some last :=
    ⟨_, List.getElem?_eq_getElem (by omega)⟩
  have masked : (last &&& 0x0f).toNat = last.toNat % 16 := by
    rw [UInt8.toNat_and]
    exact Nat.and_two_pow_sub_one_eq_mod _ 4
  obtain ⟨first, second, third, fourth, isFirst, isSecond, isThird, isFourth, four⟩ :=
    exists_four (show last.toNat % 16 + 3 < hash.length by omega)
  refine ⟨truncatedBinary first second third fourth, ?_, ?_⟩
  · simp only [dynamicTruncation, isLast, masked, isFirst, isSecond, isThird, isFourth,
      Option.bind_eq_bind, Option.bind_some]
    rfl
  · rw [truncatedValue, List.getLast?_eq_getElem?, isLast, Option.getD_some, four,
      toNat_truncatedBinary]
    simp only [List.foldl_cons, List.foldl_nil, Nat.zero_mul, Nat.zero_add]

theorem TotpAlgorithm.twenty_le_outputSize (algorithm : TotpAlgorithm) :
    20 ≤ algorithm.outputSize := by
  cases algorithm <;> decide

/-- The code of an accepted configuration has its digits and is the truncated value. -/
theorem Totp.Accepted.codeAt {totp : Totp} (accepted : totp.Accepted) (hmacDigest : HmacDigest)
    (unixSecs : UInt64) :
    ∃ code, totp.codeAt hmacDigest unixSecs = some code ∧ code.length = totp.digits ∧
      (∀ digit ∈ code, digit.isDigit = true) ∧
      Nat.ofDigitChars 10 code 0 =
        truncatedValue (hmacDigest totp.algorithm totp.key
          (beBytes (.ofNat (unixSecs.toNat / totp.period)))).toList % 10 ^ totp.digits := by
  have long : 19 ≤ (hmacDigest totp.algorithm totp.key
      (beBytes (.ofNat (unixSecs.toNat / totp.period)))).toList.length := by
    rw [Vector.length_toList]
    exact Nat.le_of_succ_le totp.algorithm.twenty_le_outputSize
  obtain ⟨binary, truncated, value⟩ := exists_dynamicTruncation long
  have most : min totp.digits 10 = totp.digits := Nat.min_eq_left accepted.most
  refine ⟨zeroPadded totp.digits (binary.toNat % 10 ^ totp.digits), ?_, ?_, ?_, ?_⟩
  · rw [Totp.codeAt, if_neg accepted.period]
    simp only [truncated, Option.map_some, most]
  · exact length_zeroPadded (Nat.lt_of_lt_of_le (by decide) accepted.fewest)
      (Nat.mod_lt _ (Nat.pow_pos (by decide)))
  · exact fun digit => isDigit_of_mem_zeroPadded
  · rw [ofDigitChars_zeroPadded, value]

/-! ### Main result -/

/-- No input fails and every accepted one gives the codes of RFC 4226, exactly where no letter lies
across the tenth byte of the trimmed input. -/
theorem parse_and_codeAt_iff (base32NopadDecode : List UInt8 → Option (List UInt8))
    (hmacDigest : HmacDigest) (input : String) :
    (Totp.parse base32NopadDecode input ≠ none ∧
      ∀ totp, Totp.parse base32NopadDecode input = some (.ok totp) →
        ∀ unixSecs, ∃ code,
          totp.codeAt hmacDigest unixSecs = some code ∧ code.length = totp.digits ∧
            (∀ digit ∈ code, digit.isDigit = true) ∧
            Nat.ofDigitChars 10 code 0 =
              truncatedValue (hmacDigest totp.algorithm totp.key
                (beBytes (.ofNat (unixSecs.toNat / totp.period)))).toList % 10 ^ totp.digits) ↔
      Library.utf8Len (trim input).toList < 10 ∨
        ∃ first rest, (trim input).toList = first ++ rest ∧ Library.utf8Len first = 10 := by
  rw [Totp.parse_ne_none_iff, and_iff_left_iff_imp]
  intro _ totp parsed unixSecs
  exact (Totp.accepted_of_parse parsed).codeAt hmacDigest unixSecs

/-- Nine letters and one of two bytes are no secret, but reading them does not say so. -/
theorem parse_tenth_letter_accented : Totp.parse (fun _ => none) "123456789é" = none := by
  decide

end Oryxis.Login

/-
This file models the cookie swap on a forwarded X11 channel: the rewriter of the setup request,
fed by whatever reads the channel gives. A setup request is a structure whose fields have the
lengths its encoding declares, and the reference is a relation on whole streams: a request with the
fake cookie and a rest become the same request with the display's cookie and the same rest. The
rewriter agrees with it, for every cutting, except where the read that completes the request brings
the buffer over the size guard, which also counts the traffic behind the request.
-/

import Mathlib.Algebra.Ring.Nat
import Mathlib.Data.List.GetD
import Mathlib.Tactic.ByContra

namespace Oryxis.Ssh.X11

open List

/-! ### The rewriter -/

/-- The only auth protocol that is forwarded. -/
def cookieProto : List UInt8 := "MIT-MAGIC-COOKIE-1".toList.map fun letter => UInt8.ofNat letter.toNat

def headerLen : Nat := 12

def maxSetupLen : Nat := 8 * 1024

def pad4 (n : Nat) : Nat := (4 - n % 4) % 4

def constantTimeEq (a b : List UInt8) : Bool :=
  if a.length ≠ b.length then false
  else (a.zip b).foldl (fun diff pair => diff ||| (pair.1 ^^^ pair.2)) 0 == 0

inductive ByteOrder where
  | big
  | little

namespace ByteOrder

def byte : ByteOrder → UInt8
  | .big => 0x42
  | .little => 0x6c

def ofByte (byte : UInt8) : Option ByteOrder :=
  if byte = 0x42 then some .big else if byte = 0x6c then some .little else none

def join : ByteOrder → UInt8 → UInt8 → Nat
  | .big, first, second => first.toNat * 256 + second.toNat
  | .little, first, second => second.toNat * 256 + first.toNat

def u16At (order : ByteOrder) (bytes : List UInt8) (i : Nat) : Nat :=
  order.join (bytes.getD i 0) (bytes.getD (i + 1) 0)

/-- The two bytes of a number, cut to sixteen bits. -/
def putU16 (order : ByteOrder) (value : Nat) : List UInt8 :=
  let high := UInt8.ofNat (value / 256)
  let low := UInt8.ofNat value
  match order with
  | .big => [high, low]
  | .little => [low, high]

end ByteOrder

inductive Rewrite where
  | needMore
  | done (data : List UInt8)
  | reject (why : String)

/-- A cookie of the authority file, whose records carry sixteen-bit lengths. -/
structure Cookie where
  data : List UInt8
  fits : data.length < 2 ^ 16

structure SetupRewriter where
  buf : List UInt8
  fake : List UInt8
  real : Option Cookie
  isDone : Bool

namespace SetupRewriter

def new (fake : List UInt8) (real : Option Cookie) : SetupRewriter := ⟨[], fake, real, false⟩

/-- The name and the data of what the local display expects. -/
def auth (rewriter : SetupRewriter) : List UInt8 × List UInt8 :=
  match rewriter.real with
  | some real => (cookieProto, real.data)
  | none => ([], [])

/-- The rewritten setup request and whatever was buffered behind it. -/
def rebuild (rewriter : SetupRewriter) (order : ByteOrder) (total : Nat) : List UInt8 :=
  let out := rewriter.auth
  rewriter.buf.take 6 ++ order.putU16 out.1.length ++ order.putU16 out.2.length
    ++ (rewriter.buf.drop 10).take 2
    ++ out.1 ++ List.replicate (pad4 out.1.length) 0
    ++ out.2 ++ List.replicate (pad4 out.2.length) 0
    ++ rewriter.buf.drop total

/-- What the buffered bytes amount to, once the fixed header is in. -/
def examine (rewriter : SetupRewriter) : Rewrite :=
  match ByteOrder.ofByte (rewriter.buf.getD 0 0) with
  | none => .reject "X11 setup request has an invalid byte-order byte"
  | some order =>
    let nameLen := order.u16At rewriter.buf 6
    let dataLen := order.u16At rewriter.buf 8
    let dataAt := headerLen + nameLen + pad4 nameLen
    let total := dataAt + dataLen + pad4 dataLen
    if maxSetupLen < total then .reject "X11 setup request declares an implausible length"
    else if rewriter.buf.length < total then .needMore
    else
      let name := (rewriter.buf.drop headerLen).take nameLen
      let data := (rewriter.buf.drop dataAt).take dataLen
      if name ≠ cookieProto then .reject "X11 client offered an unexpected auth protocol"
      else if !constantTimeEq data rewriter.fake then .reject "X11 cookie mismatch"
      else .done (rewriter.rebuild order total)

def buffer (chunk : List UInt8) (rewriter : SetupRewriter) : SetupRewriter :=
  { rewriter with buf := rewriter.buf ++ chunk }

def finish (rewriter : SetupRewriter) : SetupRewriter :=
  { rewriter with buf := [], isDone := true }

/-- Feed freshly read bytes of the channel. -/
def push (chunk : List UInt8) (rewriter : SetupRewriter) : Rewrite × SetupRewriter :=
  let fed := rewriter.buffer chunk
  if maxSetupLen < fed.buf.length then (.reject "X11 setup request exceeds sane size", fed)
  else if fed.buf.length < headerLen then (.needMore, fed)
  else
    match fed.examine with
    | .done data => (.done data, fed.finish)
    | other => (other, fed)

end SetupRewriter

/-- What becomes of a channel: nothing let through yet, closed, or the bytes that reach the
display. -/
inductive Outcome where
  | waiting
  | rejected
  | passed (bytes : List UInt8)
  deriving DecidableEq, Repr

/-- A channel, read by read: pushes until the request is in or refused, and from then on the bytes
as they come. -/
def SetupRewriter.run (rewriter : SetupRewriter) : List (List UInt8) → Outcome
  | [] => .waiting
  | read :: reads =>
    match rewriter.push read with
    | (.needMore, fed) => fed.run reads
    | (.reject _, _) => .rejected
    | (.done data, _) => .passed (data ++ reads.flatten)

/-! ### Setup requests -/

/-- A setup request: the fields in the order of the wire, with the padding they need. -/
structure Request where
  order : ByteOrder
  unused : UInt8
  major : UInt8 × UInt8
  minor : UInt8 × UInt8
  spare : UInt8 × UInt8
  name : List UInt8
  namePad : List UInt8
  data : List UInt8
  dataPad : List UInt8
  nameFits : name.length < 2 ^ 16
  dataFits : data.length < 2 ^ 16
  namePadLength : namePad.length = pad4 name.length
  dataPadLength : dataPad.length = pad4 data.length

namespace Request

def encode (request : Request) : List UInt8 :=
  [request.order.byte, request.unused, request.major.1, request.major.2, request.minor.1,
      request.minor.2]
    ++ request.order.putU16 request.name.length ++ request.order.putU16 request.data.length
    ++ [request.spare.1, request.spare.2]
    ++ request.name ++ request.namePad ++ request.data ++ request.dataPad

/-- The request carries this cookie under the forwarded protocol, within the size allowed. -/
def Carries (fake : List UInt8) (request : Request) : Prop :=
  request.name = cookieProto ∧ request.data = fake ∧ request.encode.length ≤ maxSetupLen

theorem length_cookieProto : cookieProto.length = 18 := by decide

/-- The same request with the display's own cookie, or with no auth at all. -/
def withAuth (request : Request) : Option Cookie → Request
  | some real =>
    { request with
      name := cookieProto
      namePad := List.replicate (pad4 cookieProto.length) 0
      data := real.data
      dataPad := List.replicate (pad4 real.data.length) 0
      nameFits := by rw [length_cookieProto]; decide
      dataFits := real.fits
      namePadLength := length_replicate
      dataPadLength := length_replicate }
  | none =>
    { request with
      name := []
      namePad := []
      data := []
      dataPad := []
      nameFits := by decide
      dataFits := by decide
      namePadLength := rfl
      dataPadLength := rfl }

end Request

/-- What a display should receive for a stream. -/
def Swapped (fake : List UInt8) (real : Option Cookie) (stream bytes : List UInt8) : Prop :=
  ∃ (request : Request) (rest : List UInt8), request.Carries fake ∧
    stream = request.encode ++ rest ∧ bytes = (request.withAuth real).encode ++ rest

/-! ### Numbers and cookies -/

theorem foldl_diff_eq_zero (pairs : List (UInt8 × UInt8)) (diff : UInt8) :
    pairs.foldl (fun diff pair => diff ||| (pair.1 ^^^ pair.2)) diff = 0 ↔
      diff = 0 ∧ ∀ pair ∈ pairs, pair.1 = pair.2 := by
  induction pairs generalizing diff with
  | nil => simp
  | cons pair pairs inductionHypothesis =>
    rw [foldl_cons, inductionHypothesis, UInt8.or_eq_zero_iff, UInt8.xor_eq_zero_iff,
      forall_mem_cons, and_assoc]

variable {a : List UInt8}

theorem eq_of_zip_same {b : List UInt8} (sameLength : a.length = b.length)
    (same : ∀ pair ∈ a.zip b, pair.1 = pair.2) : a = b := by
  induction a generalizing b with
  | nil => exact (eq_nil_of_length_eq_zero sameLength.symm).symm
  | cons x a inductionHypothesis =>
    cases b with
    | nil => cases sameLength
    | cons y b =>
      rw [zip_cons_cons, forall_mem_cons] at same
      obtain ⟨sameHead, sameTail⟩ := same
      cases sameHead
      rw [inductionHypothesis (Nat.succ.inj sameLength) sameTail]

theorem same_of_mem_zip_self : ∀ pair ∈ a.zip a, pair.1 = pair.2 := by
  induction a with
  | nil => exact forall_mem_nil _
  | cons x a inductionHypothesis =>
    rw [zip_cons_cons, forall_mem_cons]
    exact ⟨rfl, inductionHypothesis⟩

/-- The comparison in constant time is equality. -/
theorem constantTimeEq_iff (a b : List UInt8) : constantTimeEq a b = true ↔ a = b := by
  unfold constantTimeEq
  split
  · rename_i other
    exact ⟨fun impossible => (Bool.false_ne_true impossible).elim,
      fun same => (other (congrArg List.length same)).elim⟩
  · rename_i sameLength
    rw [beq_iff_eq, foldl_diff_eq_zero]
    constructor
    · intro zero
      exact eq_of_zip_same (not_not.mp sameLength) zero.2
    · rintro rfl
      exact ⟨rfl, same_of_mem_zip_self⟩

namespace ByteOrder

variable (order : ByteOrder)

theorem ofByte_byte : ofByte order.byte = some order := by
  cases order <;> rfl

theorem byte_of_ofByte {first : UInt8} {order : ByteOrder} (known : ofByte first = some order) :
    first = order.byte := by
  unfold ofByte at known
  split at known
  · cases known
    assumption
  · split at known
    · cases known
      assumption
    · cases known

theorem join_lt (first second : UInt8) : order.join first second < 2 ^ 16 := by
  have high := first.toNat_lt
  have low := second.toNat_lt
  cases order
  · change first.toNat * 256 + second.toNat < 2 ^ 16
    omega
  · change second.toNat * 256 + first.toNat < 2 ^ 16
    omega

theorem putU16_join (first second : UInt8) :
    order.putU16 (order.join first second) = [first, second] := by
  have low : ∀ a b : UInt8, UInt8.ofNat (a.toNat * 256 + b.toNat) = b := by
    intro a b
    apply UInt8.toNat_inj.mp
    rw [UInt8.toNat_ofNat', Nat.mul_comm, Nat.mul_add_mod]
    exact Nat.mod_eq_of_lt b.toNat_lt
  have high : ∀ a b : UInt8, UInt8.ofNat ((a.toNat * 256 + b.toNat) / 256) = a := by
    intro a b
    have small := b.toNat_lt
    have quotient : (a.toNat * 256 + b.toNat) / 256 = a.toNat := by omega
    rw [quotient, UInt8.ofNat_toNat]
  cases order
  · exact congrArg₂ (fun x y => [x, y]) (high first second) (low first second)
  · exact congrArg₂ (fun x y => [x, y]) (low second first) (high second first)

/-- A length is read back from its two bytes. -/
theorem putU16_eq {value : Nat} (fits : value < 2 ^ 16) :
    ∃ first second, order.putU16 value = [first, second] ∧ order.join first second = value := by
  have high : (UInt8.ofNat (value / 256)).toNat = value / 256 := by
    rw [UInt8.toNat_ofNat']
    exact Nat.mod_eq_of_lt (by omega)
  have low : (UInt8.ofNat value).toNat = value % 256 := UInt8.toNat_ofNat'
  cases order
  · refine ⟨_, _, rfl, ?_⟩
    change (UInt8.ofNat (value / 256)).toNat * 256 + (UInt8.ofNat value).toNat = value
    omega
  · refine ⟨_, _, rfl, ?_⟩
    change (UInt8.ofNat (value / 256)).toNat * 256 + (UInt8.ofNat value).toNat = value
    omega

theorem u16At_append {bytes : List UInt8} {i : Nat} (inside : i + 1 < bytes.length)
    (later : List UInt8) :
    order.u16At (bytes ++ later) i = order.u16At bytes i := by
  rw [u16At, u16At, getD_append _ _ _ _ (Nat.lt_of_succ_lt inside),
    getD_append _ _ _ _ inside]

end ByteOrder

namespace Request

/-- The request on the wire: its twelve bytes of header, then the two padded fields. -/
theorem encode_eq (request : Request) : ∃ n₁ n₂ d₁ d₂,
    request.order.join n₁ n₂ = request.name.length ∧
    request.order.join d₁ d₂ = request.data.length ∧
    request.encode = request.order.byte :: request.unused :: request.major.1 :: request.major.2 ::
      request.minor.1 :: request.minor.2 :: n₁ :: n₂ :: d₁ :: d₂ :: request.spare.1 ::
      request.spare.2 :: (request.name ++ request.namePad ++ request.data ++ request.dataPad) := by
  obtain ⟨n₁, n₂, nameBytes, nameLength⟩ := request.order.putU16_eq request.nameFits
  obtain ⟨d₁, d₂, dataBytes, dataLength⟩ := request.order.putU16_eq request.dataFits
  refine ⟨n₁, n₂, d₁, d₂, nameLength, dataLength, ?_⟩
  rw [encode, nameBytes, dataBytes]
  simp only [cons_append, nil_append, append_assoc]

theorem length_encode (request : Request) : request.encode.length =
    headerLen + request.name.length + pad4 request.name.length + request.data.length
      + pad4 request.data.length := by
  obtain ⟨n₁, n₂, d₁, d₂, _, _, encoded⟩ := request.encode_eq
  rw [encoded]
  simp only [length_cons, length_append, request.namePadLength, request.dataPadLength,
    headerLen]
  omega

end Request

/-! ### What the buffered bytes amount to -/

namespace SetupRewriter

variable {rewriter : SetupRewriter} {request : Request} {rest : List UInt8}

theorem rebuild_eq (holds : rewriter.buf = request.encode ++ rest) :
    rewriter.rebuild request.order request.encode.length =
      (request.withAuth rewriter.real).encode ++ rest := by
  obtain ⟨n₁, n₂, d₁, d₂, _, _, encoded⟩ := request.encode_eq
  have behind : rewriter.buf.drop request.encode.length = rest := by
    rw [holds, drop_left]
  rw [rebuild, behind, holds, encoded, auth]
  cases rewriter.real with
  | none => rfl
  | some real =>
    simp only [Request.encode, Request.withAuth, append_assoc]
    rfl

variable {buf later : List UInt8}

/-- The header is read off any twelve bytes of a request. -/
theorem header_eq (holds : buf ++ later = request.encode ++ rest) (full : headerLen ≤ buf.length) :
    ByteOrder.ofByte (buf.getD 0 0) = some request.order ∧
      request.order.u16At buf 6 = request.name.length ∧
      request.order.u16At buf 8 = request.data.length := by
  obtain ⟨n₁, n₂, d₁, d₂, nameLength, dataLength, encoded⟩ := request.encode_eq
  have twelve : 12 ≤ buf.length := full
  rw [← getD_append buf later 0 0 (by omega),
    ← request.order.u16At_append (by omega : 6 + 1 < buf.length) later,
    ← request.order.u16At_append (by omega : 8 + 1 < buf.length) later, holds, encoded]
  exact ⟨request.order.ofByte_byte, nameLength, dataLength⟩

/-- Part of an acceptable request is waited for. -/
theorem examine_of_short (carries : request.Carries rewriter.fake)
    (holds : rewriter.buf ++ later = request.encode ++ rest)
    (full : headerLen ≤ rewriter.buf.length) (short : rewriter.buf.length < request.encode.length) :
    rewriter.examine = .needMore := by
  obtain ⟨order, nameLength, dataLength⟩ := header_eq holds full
  have size := request.length_encode
  have fits := carries.2.2
  simp only [examine, order, nameLength, dataLength]
  rw [← size, if_neg (Nat.not_lt.mpr fits), if_pos short]

/-- An acceptable request is rewritten, and what is behind it stays. -/
theorem examine_of_request (carries : request.Carries rewriter.fake)
    (holds : rewriter.buf = request.encode ++ rest) :
    rewriter.examine = .done ((request.withAuth rewriter.real).encode ++ rest) := by
  obtain ⟨isProto, isFake, fits⟩ := carries
  have size := request.length_encode
  have reaches : request.encode.length ≤ rewriter.buf.length := by
    rw [holds, length_append]
    exact Nat.le_add_right _ _
  have full : headerLen ≤ rewriter.buf.length := by omega
  have whole : rewriter.buf ++ [] = request.encode ++ rest := (append_nil _).trans holds
  obtain ⟨order, nameLength, dataLength⟩ := header_eq whole full
  obtain ⟨n₁, n₂, d₁, d₂, _, _, encoded⟩ := request.encode_eq
  have name : (rewriter.buf.drop headerLen).take request.name.length = cookieProto := by
    rw [holds, encoded, headerLen]
    simp only [cons_append, drop_succ_cons, drop_zero, append_assoc,
      take_left]
    exact isProto
  have data : (rewriter.buf.drop (headerLen + request.name.length +
      pad4 request.name.length)).take request.data.length = rewriter.fake := by
    rw [holds, encoded, headerLen, Nat.add_assoc, ← drop_drop, ← drop_drop,
      ← request.namePadLength]
    simp only [cons_append, drop_succ_cons, drop_zero, append_assoc,
      drop_left, take_left]
    exact isFake
  simp only [examine, order, nameLength, dataLength]
  rw [← size, if_neg (Nat.not_lt.mpr fits), if_neg (Nat.not_lt.mpr reaches), name, data,
    if_neg (not_not.mpr rfl), (constantTimeEq_iff _ _).mpr rfl, rebuild_eq holds]
  rfl

variable {bytes : List UInt8}

theorem exists_field {a b : Nat} (room : a + b ≤ bytes.length) :
    ∃ field rest : List UInt8, bytes = field ++ rest ∧ field.length = a ∧ b ≤ rest.length := by
  refine ⟨bytes.take a, bytes.drop a, (take_append_drop a bytes).symm, ?_, ?_⟩
  · rw [length_take]
    exact Nat.min_eq_left (Nat.le_trans (Nat.le_add_right a b) room)
  · rw [length_drop]
    exact Nat.le_sub_of_add_le' room

theorem exists_header (full : headerLen ≤ buf.length) :
    ∃ b₀ b₁ b₂ b₃ b₄ b₅ b₆ b₇ b₈ b₉ b₁₀ b₁₁ tail,
      buf = b₀ :: b₁ :: b₂ :: b₃ :: b₄ :: b₅ :: b₆ :: b₇ :: b₈ :: b₉ :: b₁₀ :: b₁₁ :: tail := by
  match buf, full with
  | b₀ :: b₁ :: b₂ :: b₃ :: b₄ :: b₅ :: b₆ :: b₇ :: b₈ :: b₉ :: b₁₀ :: b₁₁ :: tail, _ =>
    exact ⟨b₀, b₁, b₂, b₃, b₄, b₅, b₆, b₇, b₈, b₉, b₁₀, b₁₁, tail, rfl⟩

/-- Nothing but an acceptable request is rewritten. -/
theorem request_of_examine (full : headerLen ≤ rewriter.buf.length)
    (rewritten : rewriter.examine = .done bytes) :
    ∃ (request : Request) (rest : List UInt8), request.Carries rewriter.fake ∧
      rewriter.buf = request.encode ++ rest ∧
      bytes = (request.withAuth rewriter.real).encode ++ rest := by
  have done := rewritten
  obtain ⟨b₀, b₁, b₂, b₃, b₄, b₅, b₆, b₇, b₈, b₉, b₁₀, b₁₁, tail, holds⟩ := exists_header full
  unfold examine at done
  split at done
  · cases done
  rename_i order known
  have first : b₀ = order.byte := by
    rw [holds] at known
    exact ByteOrder.byte_of_ofByte known
  have nameLength : order.u16At rewriter.buf 6 = order.join b₆ b₇ := by rw [holds]; rfl
  have dataLength : order.u16At rewriter.buf 8 = order.join b₈ b₉ := by rw [holds]; rfl
  simp only [nameLength, dataLength] at done
  split at done
  · cases done
  rename_i fits
  split at done
  · cases done
  rename_i reaches
  split at done
  · cases done
  rename_i isProto
  split at done
  · cases done
  rename_i isFake
  have nameFits := order.join_lt b₆ b₇
  have dataFits := order.join_lt b₈ b₉
  generalize sameName : order.join b₆ b₇ = nameLen at *
  generalize sameData : order.join b₈ b₉ = dataLen at *
  have room : nameLen + (pad4 nameLen + (dataLen + pad4 dataLen)) ≤ tail.length := by
    rw [holds] at reaches
    simp only [headerLen, length_cons] at reaches
    omega
  obtain ⟨name, tail₁, rfl, isName, room⟩ := exists_field room
  obtain ⟨namePad, tail₂, rfl, isNamePad, room⟩ := exists_field room
  obtain ⟨data, tail₃, rfl, isData, room⟩ := exists_field room
  obtain ⟨dataPad, rest, rfl, isDataPad, _⟩ := exists_field (b := 0) room
  subst isName isData
  let request : Request :=
    { order := order, unused := b₁, major := (b₂, b₃), minor := (b₄, b₅), spare := (b₁₀, b₁₁)
      name := name, namePad := namePad, data := data, dataPad := dataPad
      nameFits := nameFits, dataFits := dataFits
      namePadLength := isNamePad, dataPadLength := isDataPad }
  have whole : rewriter.buf = request.encode ++ rest := by
    rw [holds, first, Request.encode, ← sameName, order.putU16_join, ← sameData,
      order.putU16_join]
    simp only [request, cons_append, nil_append, append_assoc]
  have carries : request.Carries rewriter.fake := by
    rw [holds] at isProto isFake
    refine ⟨?_, ?_, ?_⟩
    · have read := not_not.mp isProto
      rw [headerLen] at read
      simp only [drop_succ_cons, drop_zero, take_left] at read
      exact read
    · rw [Bool.not_eq_true', Bool.not_eq_false, constantTimeEq_iff, headerLen, Nat.add_assoc,
        ← drop_drop, ← drop_drop, ← isNamePad] at isFake
      simp only [drop_succ_cons, drop_zero, drop_left, take_left] at isFake
      exact isFake
    · rw [request.length_encode]
      exact Nat.not_lt.mp fits
  refine ⟨request, rest, carries, whole, ?_⟩
  rw [examine_of_request carries whole] at rewritten
  exact (Rewrite.done.inj rewritten).symm

theorem examine_buffer_of_reject {why : String} (full : headerLen ≤ rewriter.buf.length)
    (refused : rewriter.examine = .reject why) (later : List UInt8) :
    (rewriter.buffer later).examine = .reject why := by
  have twelve : 12 ≤ rewriter.buf.length := full
  have longer : (rewriter.buffer later).buf = rewriter.buf ++ later := rfl
  have sameFake : (rewriter.buffer later).fake = rewriter.fake := rfl
  generalize rewriter.buffer later = whole at longer sameFake ⊢
  have first : whole.buf.getD 0 0 = rewriter.buf.getD 0 0 := by
    rw [longer]
    exact getD_append _ _ _ _ (by omega)
  unfold examine at refused ⊢
  rw [first]
  split at refused
  · exact refused
  rename_i order known
  have sameName : order.u16At whole.buf 6 = order.u16At rewriter.buf 6 := by
    rw [longer]
    exact order.u16At_append (by omega) later
  have sameData : order.u16At whole.buf 8 = order.u16At rewriter.buf 8 := by
    rw [longer]
    exact order.u16At_append (by omega) later
  simp only [sameName, sameData] at refused ⊢
  generalize order.u16At rewriter.buf 6 = nameLen at refused ⊢
  generalize order.u16At rewriter.buf 8 = dataLen at refused ⊢
  split at refused
  · rename_i large
    rw [if_pos large]
    exact refused
  rename_i fits
  split at refused
  · cases refused
  rename_i reaches
  have name : (whole.buf.drop headerLen).take nameLen =
      (rewriter.buf.drop headerLen).take nameLen := by
    rw [longer, drop_append_of_le_length full, take_append_of_le_length]
    rw [length_drop]
    omega
  have data : (whole.buf.drop (headerLen + nameLen + pad4 nameLen)).take dataLen =
      (rewriter.buf.drop (headerLen + nameLen + pad4 nameLen)).take dataLen := by
    rw [longer, drop_append_of_le_length (by omega), take_append_of_le_length]
    rw [length_drop]
    omega
  have enough : ¬whole.buf.length < headerLen + nameLen + pad4 nameLen + dataLen + pad4 dataLen := by
    rw [longer, length_append]
    omega
  rw [if_neg fits, if_neg enough, name, data, sameFake]
  split at refused
  · rename_i other
    rw [if_pos other]
    exact refused
  rename_i isProto
  split at refused
  · rename_i other
    rw [if_neg isProto, if_pos other]
    exact refused
  · cases refused

/-! ### Runs -/

/-- What the bytes so far amount to, whatever reads brought them. -/
def verdict (rewriter : SetupRewriter) : Outcome :=
  if rewriter.buf.length < headerLen then .waiting
  else
    match rewriter.examine with
    | .needMore => .waiting
    | .reject _ => .rejected
    | .done data => .passed data

theorem verdict_eq_passed_iff :
    rewriter.verdict = .passed bytes ↔
      Swapped rewriter.fake rewriter.real rewriter.buf bytes := by
  unfold verdict Swapped
  constructor
  · intro passed
    split at passed
    · cases passed
    rename_i full
    split at passed
    · cases passed
    · cases passed
    · rename_i done
      cases passed
      exact request_of_examine (Nat.not_lt.mp full) done
  · rintro ⟨request, rest, carries, holds, rfl⟩
    have size := request.length_encode
    have reaches := congrArg List.length holds
    rw [length_append] at reaches
    rw [if_neg (by omega), examine_of_request carries holds]

theorem verdict_buffer_of_rejected (rejected : rewriter.verdict = .rejected) (later : List UInt8) :
    (rewriter.buffer later).verdict = .rejected := by
  unfold verdict at rejected ⊢
  split at rejected
  · cases rejected
  rename_i full
  split at rejected
  · cases rejected
  · rename_i why refused
    have longer : ¬(rewriter.buffer later).buf.length < headerLen := by
      rw [buffer, length_append]
      omega
    rw [if_neg longer, examine_buffer_of_reject (Nat.not_lt.mp full) refused]
  · cases rejected

/-- Past the size guard the header and the whole declared request are in. -/
theorem verdict_ne_waiting (large : maxSetupLen < rewriter.buf.length) :
    rewriter.verdict ≠ .waiting := by
  have full : ¬rewriter.buf.length < headerLen := by
    rw [headerLen]
    rw [maxSetupLen] at large
    omega
  unfold verdict
  rw [if_neg full]
  cases examined : rewriter.examine with
  | reject why =>
    intro waits
    cases waits
  | done data =>
    intro waits
    cases waits
  | needMore =>
    unfold examine at examined
    split at examined
    · cases examined
    simp only at examined
    split at examined
    · cases examined
    split at examined
    · omega
    split at examined
    · cases examined
    split at examined
    · cases examined
    · cases examined

end SetupRewriter

/-- The bytes the reads bring, up to the read that brings the last of those needed. -/
def broughtBy (needed : Nat) : List (List UInt8) → Nat
  | [] => 0
  | read :: reads =>
    if needed ≤ read.length then read.length
    else read.length + broughtBy (needed - read.length) reads

/-- No read that completes an acceptable request brings the buffer over the guard. -/
def InTime (rewriter : SetupRewriter) (reads : List (List UInt8)) : Prop :=
  ∀ (request : Request) (rest : List UInt8), request.Carries rewriter.fake →
    rewriter.buf ++ reads.flatten = request.encode ++ rest →
    rewriter.buf.length + broughtBy (request.encode.length - rewriter.buf.length) reads
      ≤ maxSetupLen

namespace SetupRewriter

variable {rewriter : SetupRewriter}

variable {later : List UInt8}

/-- Part of an acceptable request says nothing yet. -/
theorem verdict_of_short {rest : List UInt8} {request : Request}
    (carries : request.Carries rewriter.fake)
    (holds : rewriter.buf ++ later = request.encode ++ rest)
    (short : rewriter.buf.length < request.encode.length) : rewriter.verdict = .waiting := by
  unfold verdict
  split
  · rfl
  · rename_i full
    rw [examine_of_short carries holds (Nat.not_lt.mp full) short]

/-- A settled verdict is not changed by what comes behind. -/
theorem verdict_buffer_of_passed {bytes : List UInt8} (passed : rewriter.verdict = .passed bytes)
    (later : List UInt8) :
    (rewriter.buffer later).verdict = .passed (bytes ++ later) := by
  rw [verdict_eq_passed_iff] at passed ⊢
  obtain ⟨request, rest, carries, holds, swapped⟩ := passed
  refine ⟨request, rest ++ later, carries, ?_, ?_⟩
  · rw [buffer, holds, append_assoc]
  · rw [swapped, append_assoc]
    rfl

/-- An acceptable request that is in passes, and so does what is behind it. -/
theorem passed_of_reaches {rest : List UInt8} {request : Request}
    (carries : request.Carries rewriter.fake)
    (holds : rewriter.buf ++ later = request.encode ++ rest)
    (reaches : request.encode.length ≤ rewriter.buf.length) :
    ∃ bytes, rewriter.verdict = .passed bytes := by
  have front : rewriter.buf = request.encode ++ rewriter.buf.drop request.encode.length := by
    have taken := congrArg (List.take request.encode.length) holds
    rw [take_left, take_append_of_le_length reaches] at taken
    calc rewriter.buf
        = rewriter.buf.take request.encode.length ++ rewriter.buf.drop request.encode.length :=
          (take_append_drop _ _).symm
      _ = request.encode ++ rewriter.buf.drop request.encode.length := by rw [taken]
  exact ⟨_, verdict_eq_passed_iff.mpr ⟨request, _, carries, front, rfl⟩⟩

variable {read : List UInt8}

theorem run_of_fits (fits : ¬maxSetupLen < (rewriter.buffer read).buf.length)
    (reads : List (List UInt8)) :
    rewriter.run (read :: reads) =
      match (rewriter.buffer read).verdict with
      | .waiting => (rewriter.buffer read).run reads
      | .rejected => .rejected
      | .passed bytes => .passed (bytes ++ reads.flatten) := by
  rw [run, push, if_neg fits, verdict]
  by_cases short : (rewriter.buffer read).buf.length < headerLen
  · rw [if_pos short, if_pos short]
  · rw [if_neg short, if_neg short]
    cases (rewriter.buffer read).examine <;> rfl

theorem run_of_large (large : maxSetupLen < (rewriter.buffer read).buf.length)
    (reads : List (List UInt8)) :
    rewriter.run (read :: reads) = .rejected := by
  rw [run, push, if_pos large]

theorem buffer_flatten_cons (rewriter : SetupRewriter) (read : List UInt8)
    (reads : List (List UInt8)) : rewriter.buffer (read :: reads).flatten =
      (rewriter.buffer read).buffer reads.flatten := by
  rw [buffer, buffer, buffer, flatten_cons, append_assoc]

theorem length_buffer (rewriter : SetupRewriter) (read : List UInt8) :
    (rewriter.buffer read).buf.length = rewriter.buf.length + read.length := length_append

variable {needed held : Nat}

theorem broughtBy_of_short (short : held + read.length < needed) (reads : List (List UInt8)) :
    held + broughtBy (needed - held) (read :: reads) =
      held + read.length + broughtBy (needed - (held + read.length)) reads := by
  rw [broughtBy, if_neg (by omega), Nat.sub_sub, Nat.add_assoc]

theorem broughtBy_of_enough (enough : needed ≤ held + read.length) (reads : List (List UInt8)) :
    held + broughtBy (needed - held) (read :: reads) = held + read.length := by
  rw [broughtBy, if_pos (by omega)]

/-- The reads come to what the bytes amount to, unless the guard cuts an acceptable request off. -/
theorem run_eq_verdict_iff (waits : rewriter.verdict = .waiting) (reads : List (List UInt8)) :
    rewriter.run reads = (rewriter.buffer reads.flatten).verdict ↔ InTime rewriter reads := by
  induction reads generalizing rewriter with
  | nil =>
    have same : (rewriter.buffer ([] : List (List UInt8)).flatten).verdict = .waiting := by
      rw [flatten_nil, buffer, append_nil]
      exact waits
    rw [run, same]
    refine ⟨fun _ request rest carries holds => ?_, fun _ => rfl⟩
    have reaches := congrArg List.length holds
    rw [flatten_nil, append_nil, length_append] at reaches
    obtain ⟨bytes, passed⟩ := passed_of_reaches carries holds (by omega)
    rw [waits] at passed
    cases passed
  | cons read reads inductionHypothesis =>
    rw [buffer_flatten_cons]
    have longer := rewriter.length_buffer read
    -- a request on the whole stream is one behind the bytes read so far
    have fed : ∀ {request : Request} {rest : List UInt8},
        rewriter.buf ++ (read :: reads).flatten = request.encode ++ rest →
        (rewriter.buffer read).buf ++ reads.flatten = request.encode ++ rest := by
      intro request rest holds
      rw [← holds, buffer, flatten_cons, append_assoc]
    have stays : ∀ {request : Request}, request.Carries rewriter.fake →
        request.Carries (rewriter.buffer read).fake := id
    by_cases large : maxSetupLen < (rewriter.buffer read).buf.length
    · rw [run_of_large large]
      cases settled : (rewriter.buffer read).verdict with
      | waiting => exact absurd settled (verdict_ne_waiting large)
      | rejected =>
        rw [verdict_buffer_of_rejected settled]
        refine ⟨fun _ request rest carries holds => ?_, fun _ => rfl⟩
        have reaches : request.encode.length ≤ (rewriter.buffer read).buf.length :=
          Nat.le_of_lt (Nat.lt_of_le_of_lt carries.2.2 large)
        obtain ⟨bytes, passed⟩ := passed_of_reaches (stays carries) (fed holds) reaches
        rw [settled] at passed
        cases passed
      | passed bytes =>
        rw [verdict_buffer_of_passed settled]
        refine ⟨fun same => Outcome.noConfusion same, fun inTime => ?_⟩
        obtain ⟨request, rest, carries, holds, _⟩ := verdict_eq_passed_iff.mp settled
        have reaches := congrArg List.length holds
        rw [length_append, longer] at reaches
        have within := inTime request (rest ++ reads.flatten) carries (by
          rw [flatten_cons, ← append_assoc]
          change (rewriter.buffer read).buf ++ reads.flatten = _
          rw [holds, append_assoc])
        rw [broughtBy_of_enough (by omega)] at within
        omega
    · rw [run_of_fits large]
      cases settled : (rewriter.buffer read).verdict with
      | waiting =>
        refine (inductionHypothesis settled).trans (forall_congr' fun request =>
          forall_congr' fun rest => forall_congr' fun carries => ?_)
        have sameStream : rewriter.buf ++ (read :: reads).flatten =
            (rewriter.buffer read).buf ++ reads.flatten := by
          rw [buffer, flatten_cons, append_assoc]
        rw [sameStream]
        refine forall_congr' fun holds => ?_
        have short : rewriter.buf.length + read.length < request.encode.length := by
          by_contra reaches
          obtain ⟨bytes, passed⟩ := passed_of_reaches carries holds (by omega)
          rw [settled] at passed
          cases passed
        rw [broughtBy_of_short short, longer]
      | rejected =>
        rw [verdict_buffer_of_rejected settled]
        refine ⟨fun _ request rest carries holds => ?_, fun _ => rfl⟩
        have whole : ((rewriter.buffer read).buffer reads.flatten).buf = request.encode ++ rest :=
          fed holds
        have carried : request.Carries ((rewriter.buffer read).buffer reads.flatten).fake := carries
        have passed := verdict_eq_passed_iff.mpr ⟨request, rest, carried, whole, rfl⟩
        rw [verdict_buffer_of_rejected settled] at passed
        cases passed
      | passed bytes =>
        rw [verdict_buffer_of_passed settled]
        refine ⟨fun _ request rest carries holds => ?_, fun _ => rfl⟩
        have reaches : request.encode.length ≤ rewriter.buf.length + read.length := by
          by_contra short
          have waiting := verdict_of_short (stays carries) (fed holds) (by omega)
          rw [settled] at waiting
          cases waiting
        rw [broughtBy_of_enough reaches]
        omega

end SetupRewriter

/-! ### Every cutting -/

/-- Where the stream starts with an acceptable request, the reads up to the one that completes it
bring no more bytes than the guard allows. -/
def CompletedInTime (fake : List UInt8) (reads : List (List UInt8)) : Prop :=
  ∀ (request : Request) (rest : List UInt8), request.Carries fake →
    reads.flatten = request.encode ++ rest → broughtBy request.encode.length reads ≤ maxSetupLen

theorem inTime_new_iff (fake : List UInt8) (real : Option Cookie) (reads : List (List UInt8)) :
    InTime (.new fake real) reads ↔ CompletedInTime fake reads := by
  unfold InTime CompletedInTime SetupRewriter.new
  simp only [length_nil, nil_append, Nat.sub_zero, Nat.zero_add]

theorem run_new_eq_iff (fake : List UInt8) (real : Option Cookie) (reads : List (List UInt8)) :
    (SetupRewriter.new fake real).run reads =
        (SetupRewriter.verdict ⟨reads.flatten, fake, real, false⟩) ↔
      CompletedInTime fake reads := by
  have waits : (SetupRewriter.new fake real).verdict = .waiting := rfl
  rw [← inTime_new_iff fake real]
  exact SetupRewriter.run_eq_verdict_iff waits reads

theorem broughtBy_single (bytes : List UInt8) (needed : Nat) :
    broughtBy (needed + 1) (bytes.map fun byte => [byte]) ≤ needed + 1 := by
  induction bytes generalizing needed with
  | nil => exact Nat.zero_le _
  | cons byte bytes inductionHypothesis =>
    rw [map_cons, broughtBy, length_singleton]
    split
    · exact Nat.le_add_left 1 needed
    · rename_i more
      obtain ⟨fewer, rfl⟩ : ∃ fewer, needed = fewer + 1 := ⟨needed - 1, by omega⟩
      have least := inductionHypothesis fewer
      rw [Nat.add_sub_cancel]
      omega

theorem completedInTime_single (fake bytes : List UInt8) :
    CompletedInTime fake (bytes.map fun byte => [byte]) := by
  intro request rest carries holds
  have size := request.length_encode
  obtain ⟨fewer, enough⟩ : ∃ fewer, request.encode.length = fewer + 1 :=
    ⟨request.encode.length - 1, by rw [headerLen] at size; omega⟩
  rw [enough]
  exact Nat.le_trans (broughtBy_single bytes fewer) (enough ▸ carries.2.2)

theorem flatten_single (bytes : List UInt8) : (bytes.map fun byte => [byte]).flatten = bytes := by
  induction bytes with
  | nil => rfl
  | cons byte bytes inductionHypothesis =>
    rw [map_cons, flatten_cons, inductionHypothesis]
    rfl

/-- A channel lets through what the display should receive, as if its bytes had come one by one,
exactly when no completing read brings the buffer over the guard. -/
theorem swaps_iff (fake : List UInt8) (real : Option Cookie) (reads : List (List UInt8)) :
    ((∀ bytes, (SetupRewriter.new fake real).run reads = .passed bytes ↔
        Swapped fake real reads.flatten bytes) ∧
      (SetupRewriter.new fake real).run reads =
        (SetupRewriter.new fake real).run (reads.flatten.map fun byte => [byte])) ↔
    CompletedInTime fake reads := by
  have single := (run_new_eq_iff fake real _).mpr (completedInTime_single fake reads.flatten)
  rw [flatten_single] at single
  rw [single]
  constructor
  · rintro ⟨_, same⟩
    exact (run_new_eq_iff fake real reads).mp same
  · intro inTime
    have same := (run_new_eq_iff fake real reads).mpr inTime
    refine ⟨fun bytes => ?_, same⟩
    rw [same]
    exact SetupRewriter.verdict_eq_passed_iff

def sampleCookie : List UInt8 := List.replicate 16 0xaa

/-- A request as a program sends it, with the session's cookie. -/
def sampleRequest : Request :=
  { order := .little, unused := 0, major := (11, 0), minor := (0, 0), spare := (0, 0)
    name := cookieProto, namePad := [0, 0], data := sampleCookie, dataPad := []
    nameFits := by decide, dataFits := by decide, namePadLength := by decide
    dataPadLength := rfl }

/-- The request and a burst of traffic behind it in one read. -/
def burst : List (List UInt8) := [sampleRequest.encode ++ List.replicate 8192 0]

theorem burst_rejected :
    ¬ ((∀ bytes, (SetupRewriter.new sampleCookie none).run burst = .passed bytes ↔
          Swapped sampleCookie none burst.flatten bytes) ∧
        (SetupRewriter.new sampleCookie none).run burst =
          (SetupRewriter.new sampleCookie none).run (burst.flatten.map fun byte => [byte])) := by
  rintro ⟨passes, _⟩
  have stream : burst.flatten = sampleRequest.encode ++ List.replicate 8192 0 := by
    rw [burst, flatten_cons, flatten_nil, append_nil]
  have large : maxSetupLen < ((SetupRewriter.new sampleCookie none).buffer
      (sampleRequest.encode ++ List.replicate 8192 0)).buf.length := by
    rw [SetupRewriter.length_buffer, length_append, length_replicate]
    decide
  have passed := (passes _).mpr ⟨sampleRequest, List.replicate 8192 0,
    ⟨rfl, rfl, by decide⟩, stream, rfl⟩
  rw [burst, SetupRewriter.run_of_large large] at passed
  cases passed

end Oryxis.Ssh.X11

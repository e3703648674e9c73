/-
This file models the CBOR that is exchanged with a security key: the writer of the canonical
subset, the reader of a value tree with its bound on nesting, and the request for an assertion.
What the writer's calls wrote is read back to the tree and to the last byte, and no encoding that
is read to the same tree is shorter. Any bytes are read within themselves, with no container
reserving more entries than bytes are left. A request is the encoding of a tree whose maps have
their keys in canonical order, so it is read back as a map of the announced size.
-/

import Oryxis.Fido2.Hid
import Oryxis.Library.Cursor
import Oryxis.Library.Utf8

namespace Oryxis.Fido2

open Library List

/-! ### Values -/

inductive Value where
  | uint (value : Nat)
  | neg (value : Int)
  | bytes (value : List UInt8)
  | text (value : String)
  | array (items : List Value)
  | map (entries : List (Value × Value))
  | bool (value : Bool)
  | null

namespace Value

def asUint : Value → Option Nat
  | .uint value => some value
  | _ => none

def asInt : Value → Option Int
  | .uint value => if value < 2 ^ 63 then some value else none
  | .neg value => some value
  | _ => none

def asBytes : Value → Option (List UInt8)
  | .bytes value => some value
  | _ => none

def kind : Value → String
  | .uint _ => "an unsigned integer"
  | .neg _ => "a negative integer"
  | .bytes _ => "a byte string"
  | .text _ => "a text string"
  | .array _ => "an array"
  | .map _ => "a map"
  | .bool _ => "a boolean"
  | .null => "null"

/-- The entries of a map, or a named error. -/
def intoMap : Value → Except Error (List (Value × Value))
  | .map entries => .ok entries
  | other => .error (.malformed ("expected a CBOR map, got " ++ other.kind))

end Value

/-! ### Writing -/

structure Cbor where
  bytes : List UInt8

/-- Major type and argument, in the shortest form. -/
def headBytes (major : UInt8) (value : Nat) : List UInt8 :=
  let tag := major <<< 5
  if value ≤ 23 then [tag ||| UInt8.ofNat value]
  else if value ≤ 0xff then [tag ||| 24, UInt8.ofNat value]
  else if value ≤ 0xffff then (tag ||| 25) :: toBe 2 value
  else if value ≤ 0xffffffff then (tag ||| 26) :: toBe 4 value
  else (tag ||| 27) :: toBe 8 value

namespace Cbor

def new : Cbor := ⟨[]⟩

def push (bytes : List UInt8) (cbor : Cbor) : Cbor := ⟨cbor.bytes ++ bytes⟩

def head (major : UInt8) (value : Nat) (cbor : Cbor) : Cbor := cbor.push (headBytes major value)

def map (entries : Nat) (cbor : Cbor) : Cbor := cbor.head 5 entries

def array (items : Nat) (cbor : Cbor) : Cbor := cbor.head 4 items

def uint (value : Nat) (cbor : Cbor) : Cbor := cbor.head 0 value

def int (value : Int) (cbor : Cbor) : Cbor :=
  if 0 ≤ value then cbor.head 0 value.toNat else cbor.head 1 (-1 - value).toNat

def text (value : String) (cbor : Cbor) : Cbor :=
  (cbor.head 3 (utf8Bytes value.toList).length).push (utf8Bytes value.toList)

def byteString (value : List UInt8) (cbor : Cbor) : Cbor :=
  (cbor.head 2 value.length).push value

def bool (value : Bool) (cbor : Cbor) : Cbor := cbor.push [if value then 0xf5 else 0xf4]

end Cbor

mutual

/-- The writer's calls for a value tree; there is none for null. -/
def Value.write : Value → Cbor → Cbor
  | .uint value, cbor => cbor.uint value
  | .neg value, cbor => cbor.int value
  | .bytes value, cbor => cbor.byteString value
  | .text value, cbor => cbor.text value
  | .array items, cbor => writeItems items (cbor.array items.length)
  | .map entries, cbor => writeEntries entries (cbor.map entries.length)
  | .bool value, cbor => cbor.bool value
  | .null, cbor => cbor

def writeItems : List Value → Cbor → Cbor
  | [], cbor => cbor
  | item :: items, cbor => writeItems items (item.write cbor)

def writeEntries : List (Value × Value) → Cbor → Cbor
  | [], cbor => cbor
  | (key, value) :: entries, cbor => writeEntries entries (value.write (key.write cbor))

end

/-! ### Reading -/

/-- Room made for the entries of a container, and how many bytes were left then. -/
structure Reservation where
  entries : Nat
  left : Nat

abbrev Read (Result : Type) : Type := Reader Reservation Error Result

namespace Read

def truncated : Error := .malformed "truncated CBOR"

def byte : Read UInt8 := Reader.byte truncated

def take (len : Nat) : Read (List UInt8) := Reader.take len truncated

def argument (info : UInt8) : Read Nat :=
  if info ≤ 23 then pure info.toNat
  else if info = 24 then do
    let read ← byte
    pure read.toNat
  else if info = 25 then do
    let read ← take 2
    pure (fromBe read)
  else if info = 26 then do
    let read ← take 4
    pure (fromBe read)
  else if info = 27 then do
    let read ← take 8
    pure (fromBe read)
  else Reader.fail (.malformed "indefinite-length CBOR")

/-- A length that fits in what is left of the input. -/
def length (info : UInt8) : Read Nat := do
  let len ← argument info
  let left ← Reader.remaining
  if len ≤ left then pure len
  else Reader.fail (.malformed "CBOR length runs past the message")

/-- Room for the entries of a container, before any of them is read. -/
def reserve (entries : Nat) : Read Unit := do
  let left ← Reader.remaining
  Reader.write ⟨entries, left⟩

/-- What the initial byte of a value calls for, with a reader for the values inside it. -/
def body (nested : Read Value) (major info : UInt8) : Read Value :=
  match major.toNat with
  | 0 => do
    let read ← argument info
    pure (.uint read)
  | 1 => do
    let magnitude ← argument info
    if magnitude < 2 ^ 63 then pure (.neg (-1 - magnitude))
    else Reader.fail (.malformed "CBOR negative integer out of range")
  | 2 => do
    let len ← length info
    let raw ← take len
    pure (.bytes raw)
  | 3 => do
    let len ← length info
    let raw ← take len
    match fromUtf8 raw with
    | some letters => pure (.text (String.ofList letters))
    | none => Reader.fail (.malformed "invalid UTF-8 in CBOR")
  | 4 => do
    let len ← length info
    reserve len
    let items ← Reader.times len nested
    pure (.array items)
  | 5 => do
    let len ← length info
    reserve len
    let entries ← Reader.times len (do
      let key ← nested
      let value ← nested
      pure (key, value))
    pure (.map entries)
  | 7 =>
    if info = 20 then pure (.bool false)
    else if info = 21 then pure (.bool true)
    else if info = 22 then pure .null
    else Reader.fail (.malformed "unsupported CBOR simple value")
  | other => Reader.fail (.malformed ("unsupported CBOR major type " ++ toString other))

/-- A value, with so many levels of nesting left. -/
def value : Nat → Read Value
  | 0 => Reader.fail (.malformed "CBOR nested too deeply")
  | levels + 1 => do
    let initial ← byte
    body (value levels) (initial >>> 5) (initial &&& 0x1f)

end Read

def maxDepth : Nat := 16

/-- Reading the first value of bytes. -/
def readFirst (bytes : List UInt8) : Except Error Value × Cursor Reservation :=
  Read.value (maxDepth + 1) ⟨bytes, 0, []⟩

/-- The first value of bytes and how many of them it used. -/
def decode (bytes : List UInt8) : Except Error (Value × Nat) :=
  match readFirst bytes with
  | (.ok value, after) => .ok (value, after.pos)
  | (.error error, _) => .error error

/-- What decoding reserves. -/
def reservations (bytes : List UInt8) : List Reservation := (readFirst bytes).2.notes

/-! ### The bytes that are written -/

/-- The bytes the writer's calls for a value append. -/
def Value.encode (value : Value) : List UInt8 := (value.write .new).bytes

/-- The bytes of an entry of a map. -/
def encodeEntry (entry : Value × Value) : List UInt8 := entry.1.encode ++ entry.2.encode

theorem bytes_push (bytes : List UInt8) (cbor : Cbor) :
    (cbor.push bytes).bytes = cbor.bytes ++ bytes := rfl

variable (major : UInt8)

theorem bytes_head (value : Nat) (cbor : Cbor) :
    (cbor.head major value).bytes = cbor.bytes ++ headBytes major value := rfl

mutual

/-- Writing a value appends its bytes. -/
theorem bytes_write : ∀ (value : Value) (cbor : Cbor),
    (value.write cbor).bytes = cbor.bytes ++ value.encode
  | .uint value, cbor => by
    simp only [Value.encode, Value.write, Cbor.uint, bytes_head, Cbor.new, nil_append]
  | .neg value, cbor => by
    simp only [Value.encode, Value.write, Cbor.int]
    split
    · simp only [bytes_head, Cbor.new, nil_append]
    · simp only [bytes_head, Cbor.new, nil_append]
  | .bytes value, cbor => by
    simp only [Value.encode, Value.write, Cbor.byteString, bytes_push, bytes_head, Cbor.new,
      nil_append, append_assoc]
  | .text value, cbor => by
    simp only [Value.encode, Value.write, Cbor.text, bytes_push, bytes_head, Cbor.new,
      nil_append, append_assoc]
  | .array items, cbor => by
    simp only [Value.encode, Value.write, Cbor.array, bytes_items items, bytes_head, Cbor.new,
      nil_append, append_assoc]
  | .map entries, cbor => by
    simp only [Value.encode, Value.write, Cbor.map, bytes_entries entries, bytes_head, Cbor.new,
      nil_append, append_assoc]
  | .bool value, cbor => by
    simp only [Value.encode, Value.write, Cbor.bool, bytes_push, Cbor.new, nil_append]
  | .null, cbor => by
    simp only [Value.encode, Value.write, Cbor.new, append_nil]

theorem bytes_items : ∀ (items : List Value) (cbor : Cbor),
    (writeItems items cbor).bytes = cbor.bytes ++ items.flatMap Value.encode
  | [], cbor => by rw [writeItems, flatMap_nil, append_nil]
  | item :: items, cbor => by
    rw [writeItems, bytes_items items, bytes_write item, flatMap_cons, append_assoc]

theorem bytes_entries : ∀ (entries : List (Value × Value)) (cbor : Cbor),
    (writeEntries entries cbor).bytes = cbor.bytes ++ entries.flatMap encodeEntry
  | [], cbor => by rw [writeEntries, flatMap_nil, append_nil]
  | (key, value) :: entries, cbor => by
    rw [writeEntries, bytes_entries entries, bytes_write value, bytes_write key,
      flatMap_cons, encodeEntry, append_assoc, append_assoc, append_assoc]

end

theorem encode_array (items : List Value) :
    (Value.array items).encode = headBytes 4 items.length ++ items.flatMap Value.encode := by
  rw [Value.encode, Value.write, bytes_items]
  rfl

theorem encode_map (entries : List (Value × Value)) :
    (Value.map entries).encode = headBytes 5 entries.length ++ entries.flatMap encodeEntry := by
  rw [Value.encode, Value.write, bytes_entries]
  rfl

theorem encode_bytes (value : List UInt8) :
    (Value.bytes value).encode = headBytes 2 value.length ++ value := rfl

theorem encode_text (value : String) :
    (Value.text value).encode
      = headBytes 3 (utf8Bytes value.toList).length ++ utf8Bytes value.toList := rfl

theorem encode_uint (value : Nat) : (Value.uint value).encode = headBytes 0 value := rfl

theorem encode_neg {value : Int} (negative : value < 0) :
    (Value.neg value).encode = headBytes 1 (-1 - value).toNat := by
  rw [Value.encode, Value.write, Cbor.int, if_neg (Int.not_le.mpr negative)]
  rfl

/-- How many bytes a head takes. -/
def headSize (value : Nat) : Nat :=
  if value ≤ 23 then 1
  else if value ≤ 0xff then 2
  else if value ≤ 0xffff then 3
  else if value ≤ 0xffffffff then 5
  else 9

theorem length_headBytes (value : Nat) :
    (headBytes major value).length = headSize value := by
  rw [headBytes, headSize]
  split
  · rfl
  · split
    · rfl
    · split
      · rw [length_cons, length_toBe]
      · split
        · rw [length_cons, length_toBe]
        · rw [length_cons, length_toBe]

theorem headSize_pos (value : Nat) : 0 < headSize value := by
  rw [headSize]
  split_ifs <;> decide

/-! ### Reading back -/

/-- The initial byte gives back the major type and the additional information. -/
theorem initial_split : ∀ (major : Fin 8) (info : Fin 32),
    (UInt8.ofNat major <<< 5 ||| UInt8.ofNat info) >>> 5 = UInt8.ofNat major ∧
      (UInt8.ofNat major <<< 5 ||| UInt8.ofNat info) &&& 0x1f = UInt8.ofNat info := by
  decide +kernel

variable {number : Nat}

/-- An argument of several bytes is read back. -/
theorem reads_wide (width : Nat) (fits : number < 256 ^ width) (rest : List UInt8) :
    Reads (Read.take width >>= fun read => (pure (fromBe read) : Read Nat)) (toBe width number)
      rest number := by
  have taken : Reads (Read.take (toBe width number).length) (toBe width number) rest
      (toBe width number) := reads_take _ rest Read.truncated
  rw [length_toBe] at taken
  refine taken.bind_last ?_
  rw [fromBe_toBe fits]
  exact reads_pure number rest

/-- A head is an initial byte and the bytes its argument is read from. -/
theorem head_reads (major : Fin 8) (fits : number < 2 ^ 64) :
    ∃ (info : UInt8) (extra : List UInt8) (initial : UInt8),
      headBytes (UInt8.ofNat major) number = initial :: extra ∧
      initial >>> 5 = UInt8.ofNat major ∧ initial &&& 0x1f = info ∧
      ∀ rest, Reads (Read.argument info) extra rest number := by
  have split (info : Fin 32) := initial_split major info
  rw [headBytes]
  by_cases direct : number ≤ 23
  · have same : (⟨number, by omega⟩ : Fin 32).val = number := rfl
    obtain ⟨high, low⟩ := split ⟨number, by omega⟩
    rw [if_pos direct]
    refine ⟨_, [], _, rfl, high, low, fun rest => ?_⟩
    have small : UInt8.ofNat number ≤ 23 := by
      rw [UInt8.le_iff_toNat_le, UInt8.toNat_ofNat']
      exact Nat.le_trans (Nat.mod_le _ _) direct
    have value : (UInt8.ofNat number).toNat = number := by
      rw [UInt8.toNat_ofNat']
      omega
    dsimp only
    rw [Read.argument, if_pos small, value]
    exact reads_pure number rest
  · rw [if_neg direct]
    by_cases one : number ≤ 0xff
    · obtain ⟨high, low⟩ := split 24
      rw [if_pos one]
      refine ⟨_, _, _, rfl, high, low, fun rest => ?_⟩
      have value : (UInt8.ofNat number).toNat = number := by
        rw [UInt8.toNat_ofNat']
        omega
      refine (reads_byte (UInt8.ofNat number) rest Read.truncated).bind_last ?_
      rw [value]
      exact reads_pure number rest
    · rw [if_neg one]
      by_cases two : number ≤ 0xffff
      · obtain ⟨high, low⟩ := split 25
        rw [if_pos two]
        exact ⟨_, _, _, rfl, high, low, reads_wide 2 (by omega)⟩
      · rw [if_neg two]
        by_cases four : number ≤ 0xffffffff
        · obtain ⟨high, low⟩ := split 26
          rw [if_pos four]
          exact ⟨_, _, _, rfl, high, low, reads_wide 4 (by omega)⟩
        · obtain ⟨high, low⟩ := split 27
          rw [if_neg four]
          exact ⟨_, _, _, rfl, high, low, reads_wide 8 (by omega)⟩

/-! ### The trees that can be written -/

/-- The values the writer's calls produce: integers of their width and sign, lengths a vector can
have, and no null. -/
inductive Writable : Value → Prop where
  | uint {value : Nat} : value < 2 ^ 64 → Writable (.uint value)
  | neg {value : Int} : -2 ^ 63 ≤ value → value < 0 → Writable (.neg value)
  | bytes {value : List UInt8} : value.length < 2 ^ 63 → Writable (.bytes value)
  | text {value : String} : (utf8Bytes value.toList).length < 2 ^ 63 → Writable (.text value)
  | array {items : List Value} : items.length < 2 ^ 63 → (∀ item ∈ items, Writable item) →
      Writable (.array items)
  | map {entries : List (Value × Value)} : entries.length < 2 ^ 63 →
      (∀ entry ∈ entries, Writable entry.1) → (∀ entry ∈ entries, Writable entry.2) →
      Writable (.map entries)
  | bool (value : Bool) : Writable (.bool value)

mutual

/-- How deep containers are nested in a value. -/
def Value.depth : Value → Nat
  | .uint _ | .neg _ | .bytes _ | .text _ | .bool _ | .null => 0
  | .array items => itemsDepth items
  | .map entries => entriesDepth entries

def itemsDepth : List Value → Nat
  | [] => 0
  | item :: items => max (item.depth + 1) (itemsDepth items)

def entriesDepth : List (Value × Value) → Nat
  | [] => 0
  | (key, value) :: entries => max (max (key.depth + 1) (value.depth + 1)) (entriesDepth entries)

end

theorem depth_lt_of_mem_items {item : Value} {items : List Value} (among : item ∈ items) :
    item.depth < itemsDepth items := by
  induction items with
  | nil => exact absurd among not_mem_nil
  | cons first items ih =>
    rw [itemsDepth]
    obtain rfl | later := mem_cons.mp among
    · exact Nat.le_max_left _ _
    · exact Nat.lt_of_lt_of_le (ih later) (Nat.le_max_right _ _)

theorem depth_lt_of_mem_entries {entry : Value × Value} {entries : List (Value × Value)}
    (among : entry ∈ entries) :
    entry.1.depth < entriesDepth entries ∧ entry.2.depth < entriesDepth entries := by
  induction entries with
  | nil => exact absurd among not_mem_nil
  | cons first entries ih =>
    rw [entriesDepth]
    obtain rfl | later := mem_cons.mp among
    · constructor
      · exact Nat.lt_of_lt_of_le (Nat.le_max_left _ _) (Nat.le_max_left _ _)
      · exact Nat.lt_of_lt_of_le (Nat.le_max_right _ _) (Nat.le_max_left _ _)
    · exact ⟨Nat.lt_of_lt_of_le (ih later).1 (Nat.le_max_right _ _),
        Nat.lt_of_lt_of_le (ih later).2 (Nat.le_max_right _ _)⟩

theorem length_headBytes_pos (value : Nat) : 0 < (headBytes major value).length :=
  length_headBytes major value ▸ headSize_pos value

theorem encode_pos {value : Value} (writable : Writable value) : 0 < value.encode.length := by
  cases writable with
  | uint _ => exact length_headBytes_pos _ _
  | neg _ negative =>
    rw [encode_neg negative]
    exact length_headBytes_pos _ _
  | bytes _ =>
    rw [encode_bytes, length_append]
    exact Nat.lt_of_lt_of_le (length_headBytes_pos _ _) (Nat.le_add_right _ _)
  | text _ =>
    rw [encode_text, length_append]
    exact Nat.lt_of_lt_of_le (length_headBytes_pos _ _) (Nat.le_add_right _ _)
  | array _ _ =>
    rw [encode_array, length_append]
    exact Nat.lt_of_lt_of_le (length_headBytes_pos _ _) (Nat.le_add_right _ _)
  | map _ _ _ =>
    rw [encode_map, length_append]
    exact Nat.lt_of_lt_of_le (length_headBytes_pos _ _) (Nat.le_add_right _ _)
  | bool _ => exact Nat.one_pos

/-- Values of at least one byte each take at least as many bytes as they are. -/
theorem length_le_flatMap {Item : Type} {encode : Item → List UInt8} {items : List Item}
    (each : ∀ item ∈ items, 0 < (encode item).length) :
    items.length ≤ (items.flatMap encode).length := by
  induction items with
  | nil => exact Nat.le_refl _
  | cons item items ih =>
    have one := each item mem_cons_self
    have rest := ih fun other among => each other (mem_cons_of_mem _ among)
    rw [flatMap_cons, length_append, length_cons]
    omega

/-! ### Decoding what was written -/

variable {rest : List UInt8}

theorem reads_length {info : UInt8} {extra : List UInt8}
    (argument : ∀ rest, Reads (Read.argument info) extra rest number)
    (enough : number ≤ rest.length) : Reads (Read.length info) extra rest number := by
  refine (argument rest).bind_last ((reads_remaining rest).bind_last ?_)
  rw [if_pos enough]
  exact reads_pure number rest

theorem reads_reserve (entries : Nat) (rest : List UInt8) :
    Reads (Read.reserve entries) [] rest () :=
  (reads_remaining rest).bind_nil (reads_write _ rest)

/-- A value behind a head is read by what its major type calls for. -/
theorem reads_headed (major : Fin 8) (fits : number < 2 ^ 64) {levels : Nat} {tail : List UInt8}
    {result : Value} (inner : ∀ (info : UInt8) (extra : List UInt8),
      (∀ rest, Reads (Read.argument info) extra rest number) →
      Reads (Read.body (Read.value levels) (UInt8.ofNat major) info) (extra ++ tail) rest result) :
    Reads (Read.value (levels + 1)) (headBytes (UInt8.ofNat major) number ++ tail) rest
      result := by
  obtain ⟨info, extra, initial, head, high, low, argument⟩ := head_reads major fits
  have after := inner info extra argument
  rw [head, cons_append, ← singleton_append]
  refine (reads_byte initial _ _).bind ?_
  rw [high, low]
  exact after

/-- What was written is read back, if there are levels enough. -/
theorem reads_value : ∀ (levels : Nat) (value : Value), Writable value → value.depth < levels →
    ∀ rest, Reads (Read.value levels) value.encode rest value := by
  intro levels
  induction levels with
  | zero =>
    intro value _ impossible
    exact absurd impossible (Nat.not_lt_zero _)
  | succ levels ih =>
    intro value writable shallow rest
    cases writable with
    | @uint number fits =>
      rw [encode_uint, ← append_nil (headBytes _ _)]
      exact reads_headed 0 fits fun info extra argument => (argument _).bind (reads_pure _ rest)
    | @neg number bounded negative =>
      have fits : (-1 - number).toNat < 2 ^ 64 := by omega
      rw [encode_neg negative, ← append_nil (headBytes _ _)]
      refine reads_headed 1 fits fun info extra argument => (argument _).bind ?_
      have small : (-1 - number).toNat < 2 ^ 63 := by omega
      have back : (-1 - ((-1 - number).toNat : Int)) = number := by omega
      rw [if_pos small, back]
      exact reads_pure _ rest
    | @bytes bytes long =>
      rw [encode_bytes]
      refine reads_headed 2 (Nat.lt_trans long (by decide)) fun info extra argument => ?_
      refine (reads_length argument ?_).bind ?_
      · rw [length_append]
        exact Nat.le_add_right _ _
      · exact (reads_take bytes rest Read.truncated).bind_last (reads_pure _ rest)
    | @text text long =>
      rw [encode_text]
      refine reads_headed 3 (Nat.lt_trans long (by decide)) fun info extra argument => ?_
      refine (reads_length argument ?_).bind ?_
      · rw [length_append]
        exact Nat.le_add_right _ _
      · refine (reads_take (utf8Bytes text.toList) rest Read.truncated).bind_last ?_
        rw [fromUtf8_utf8Bytes]
        dsimp only
        rw [String.ofList_toList]
        exact reads_pure _ rest
    | @array items long each =>
      have below : itemsDepth items < levels + 1 := shallow
      rw [encode_array]
      refine reads_headed 4 (Nat.lt_trans long (by decide)) fun info extra argument => ?_
      refine (reads_length argument ?_).bind ((reads_reserve _ _).bind_nil ?_)
      · rw [length_append]
        exact Nat.le_trans (length_le_flatMap fun item among => encode_pos (each item among))
          (Nat.le_add_right _ _)
      · refine (reads_times (fun item among => ?_) rest).bind_last (reads_pure _ rest)
        have deeper := depth_lt_of_mem_items among
        exact ih item (each item among) (by omega)
    | @map entries long keys values =>
      have below : entriesDepth entries < levels + 1 := shallow
      rw [encode_map]
      refine reads_headed 5 (Nat.lt_trans long (by decide)) fun info extra argument => ?_
      refine (reads_length argument ?_).bind ((reads_reserve _ _).bind_nil ?_)
      · rw [length_append]
        refine Nat.le_trans (length_le_flatMap fun entry among => ?_) (Nat.le_add_right _ _)
        rw [encodeEntry, length_append]
        exact Nat.lt_of_lt_of_le (encode_pos (keys entry among)) (Nat.le_add_right _ _)
      · refine (reads_times (fun entry among rest => ?_) rest).bind_last (reads_pure _ rest)
        have deeper := depth_lt_of_mem_entries among
        have key := ih entry.1 (keys entry among) (by omega)
        have value := ih entry.2 (values entry among) (by omega) rest
        exact (key _).bind (value.bind_last (reads_pure _ rest))
    | bool value =>
      cases value with
      | false => exact (reads_byte 0xf4 rest _).bind_last (reads_pure _ rest)
      | true => exact (reads_byte 0xf5 rest _).bind_last (reads_pure _ rest)

/-- A tree that was written is decoded to itself, and to the last byte. -/
theorem decode_encode {value : Value} (writable : Writable value)
    (shallow : value.depth ≤ maxDepth) (rest : List UInt8) :
    decode (value.encode ++ rest) = .ok (value, value.encode.length) := by
  obtain ⟨later, read⟩ :=
    reads_value (maxDepth + 1) value writable (Nat.lt_succ_of_le shallow) rest [] []
  rw [nil_append, length_nil, Nat.zero_add] at read
  rw [decode, readFirst, read]

/-! ### Decoding anything -/

/-- A container reserves no more entries than bytes are left. -/
def Reservation.Fits (reservation : Reservation) : Prop := reservation.entries ≤ reservation.left

section Anything

variable {left : Nat}

/-- An argument is read from no fewer bytes than its shortest form has. -/
theorem sound_argument (info : UInt8) :
    Sound Reservation.Fits left (Read.argument info)
      fun read used => headSize read ≤ used + 1 := by
  have wide (width : Nat) (most : ∀ number < 256 ^ width, headSize number ≤ width + 1) :
      Sound Reservation.Fits left (Read.take width >>= fun read => (pure (fromBe read) : Read Nat))
        fun read used => headSize read ≤ used + 1 := by
    refine (sound_take width Read.truncated).bind fun read used _ ⟨length, same⟩ => ?_
    have small := fromBe_lt read
    rw [length] at small
    exact sound_pure (by rw [same]; exact most _ small)
  rw [Read.argument]
  split
  · rename_i direct
    refine sound_pure ?_
    have small : info.toNat ≤ 23 := UInt8.le_iff_toNat_le.mp direct
    rw [headSize, if_pos small]
  · split
    · refine (sound_byte Read.truncated).bind fun read used _ same => sound_pure ?_
      have small := read.toNat_lt
      rw [same, headSize]
      split_ifs <;> omega
    · split
      · refine wide 2 fun number small => ?_
        rw [headSize]
        split_ifs <;> omega
      · split
        · refine wide 4 fun number small => ?_
          rw [headSize]
          split_ifs <;> omega
        · split
          · refine wide 8 fun number small => ?_
            rw [headSize]
            split_ifs <;> omega
          · exact sound_fail _ _

theorem sound_length (info : UInt8) :
    Sound Reservation.Fits left (Read.length info)
      fun read used => headSize read ≤ used + 1 ∧ read ≤ left - used := by
  refine (sound_argument info).bind fun read used _ short => ?_
  refine sound_remaining.bind fun room none _ ⟨same, zero⟩ => ?_
  split
  · rename_i enough
    exact sound_pure ⟨by omega, by omega⟩
  · exact sound_fail _ _

theorem sound_reserve {entries : Nat} (fits : entries ≤ left) :
    Sound Reservation.Fits left (Read.reserve entries) fun _ used => used = 0 := by
  refine sound_remaining.bind fun room none _ ⟨same, zero⟩ => ?_
  have fine : Reservation.Fits ⟨entries, room⟩ := same ▸ fits
  exact (sound_write fine).weaken fun _ used _ more => by omega

/-- What an initial byte calls for is read from no fewer bytes than it is written with. -/
theorem sound_body {nested : Read Value}
    (inner : ∀ left, Sound Reservation.Fits left nested
      fun read used => read.encode.length ≤ used) (major info : UInt8) :
    Sound Reservation.Fits left (Read.body nested major info)
      fun read used => read.encode.length ≤ 1 + used := by
  rw [Read.body]
  split
  · refine (sound_argument info).bind fun read used _ short => sound_pure ?_
    rw [encode_uint, length_headBytes]
    omega
  · refine (sound_argument info).bind fun read used _ short => ?_
    split
    · refine sound_pure ?_
      have negative : (-1 - (read : Int)) < 0 := by omega
      have back : (-1 - (-1 - (read : Int))).toNat = read := by omega
      rw [encode_neg negative, length_headBytes, back]
      omega
    · exact sound_fail _ _
  · refine (sound_length info).bind fun len used _ ⟨short, _⟩ => ?_
    refine (sound_take len _).bind fun raw more _ ⟨length, same⟩ => sound_pure ?_
    rw [encode_bytes, length_append, length_headBytes, length]
    omega
  · refine (sound_length info).bind fun len used _ ⟨short, _⟩ => ?_
    refine (sound_take len _).bind fun raw more _ ⟨length, same⟩ => ?_
    split
    · rename_i letters decoded
      refine sound_pure ?_
      have bytes := fromUtf8_eq_some_iff.mp decoded
      rw [encode_text, String.toList_ofList, ← bytes, length_append, length_headBytes, length]
      omega
    · exact sound_fail _ _
  · refine (sound_length info).bind fun len used _ ⟨short, fits⟩ => ?_
    refine (sound_reserve fits).bind fun _ none _ zero => ?_
    refine (sound_times (fun item => item.encode.length) inner len _).bind
      fun items more _ ⟨length, sizes⟩ => sound_pure ?_
    rw [encode_array, length_append, length_headBytes, length, length_flatMap]
    omega
  · refine (sound_length info).bind fun len used _ ⟨short, fits⟩ => ?_
    refine (sound_reserve fits).bind fun _ none _ zero => ?_
    refine (sound_times (fun entry => (encodeEntry entry).length) (fun left => ?_) len
      _).bind fun entries more _ ⟨length, sizes⟩ => sound_pure ?_
    · refine (inner _).bind fun key first _ keySize => (inner _).bind
        fun value second _ valueSize => sound_pure ?_
      rw [encodeEntry, length_append]
      exact Nat.add_le_add keySize valueSize
    · rw [encode_map, length_append, length_headBytes, length, length_flatMap]
      omega
  · split
    · exact sound_pure (Nat.le_refl 1)
    · split
      · exact sound_pure (Nat.le_refl 1)
      · split
        · exact sound_pure (Nat.zero_le _)
        · exact sound_fail _ _
  · exact sound_fail _ _

/-- A value is read from no fewer bytes than it is written with. -/
theorem sound_value (levels : Nat) : ∀ left, Sound Reservation.Fits left (Read.value levels)
    fun read used => read.encode.length ≤ used := by
  induction levels with
  | zero => exact fun _ => sound_fail _ _
  | succ levels ih =>
    intro left
    refine (sound_byte _).bind fun initial one _ same => ?_
    rw [same]
    exact sound_body ih _ _

end Anything

theorem readFirst_sound (bytes : List UInt8) :
    ∃ used ≤ bytes.length, (readFirst bytes).2.pos = used ∧
      (∀ reservation ∈ reservations bytes, reservation.Fits) ∧
      ∀ value, (readFirst bytes).1 = .ok value → value.encode.length ≤ used := by
  obtain ⟨used, enough, _, moved, fit, related⟩ :=
    sound_value (maxDepth + 1) bytes.length ⟨bytes, 0, []⟩ (Nat.zero_add _)
      (forall_mem_nil _)
  exact ⟨used, enough, moved.trans (Nat.zero_add _), fit, related⟩

/-- Bytes are decoded within themselves, and from no fewer than the writer needs. -/
theorem decode_bounds {bytes : List UInt8} {value : Value} {used : Nat}
    (decoded : decode bytes = .ok (value, used)) :
    used ≤ bytes.length ∧ value.encode.length ≤ used := by
  obtain ⟨moved, enough, position, _, related⟩ := readFirst_sound bytes
  rw [decode] at decoded
  cases ran : readFirst bytes with
  | mk outcome after =>
    rw [ran] at decoded position related
    cases outcome with
    | error error => cases decoded
    | ok read =>
      cases decoded
      exact ⟨position ▸ enough, position ▸ related _ rfl⟩

/-! ### The request for an assertion -/

/-- A SHA-256 digest or message authentication code. -/
structure Hash where
  bytes : List UInt8
  length_bytes : bytes.length = 32

/-- An assertion to ask for; its vectors are no longer than a vector can be. -/
structure AssertionRequest where
  application : String
  message : List UInt8
  allowCredential : Option (List UInt8)
  userPresence : Bool
  userVerification : Bool
  application_length : (utf8Bytes application.toList).length < 2 ^ 63
  allowCredential_length : ∀ handle ∈ allowCredential, handle.length < 2 ^ 63

/-- The handle to look for, unless it is empty. -/
def AssertionRequest.allow (request : AssertionRequest) : Option (List UInt8) :=
  request.allowCredential.filter fun handle => !handle.isEmpty

inductive Protocol where
  | one
  | two

def Protocol.id : Protocol → Nat
  | .one => 1
  | .two => 2

/-- How a request proves that the user was verified. -/
inductive Verification where
  | builtIn
  | pin (protocol : Protocol) (token : List UInt8)

def Verification.isBuiltIn : Option Verification → Bool
  | some .builtIn => true
  | some (.pin _ _) | none => false

section Request

-- the message authentication code of a key and a message
variable (hmac : List UInt8 → List UInt8 → Hash)

/-- What a token checks. -/
def Protocol.authenticate (protocol : Protocol) (key message : List UInt8) : List UInt8 :=
  match protocol with
  | .one => (hmac key message).bytes.take 16
  | .two => (hmac key message).bytes

/-- The protocol and the parameter that prove a PIN. -/
def pinParameter (hash : Hash) : Option Verification → Option (Protocol × List UInt8)
  | some (.pin protocol token) => some (protocol, protocol.authenticate hmac token hash.bytes)
  | some .builtIn | none => none

/-- How many entries a request announces. -/
def announcedEntries (request : AssertionRequest) (hash : Hash)
    (verification : Option Verification) : Nat :=
  3 + request.allow.isSome.toNat + 2 * (pinParameter hmac hash verification).isSome.toNat

/-- The entry for the credential to use. -/
def Cbor.allowList (allow : Option (List UInt8)) (cbor : Cbor) : Cbor :=
  match allow with
  | none => cbor
  | some handle =>
    ((((((cbor.uint 0x03).array 1).map 2).text "id").byteString handle).text "type").text
      "public-key"

/-- The options a request asks for. -/
def Cbor.options (userPresence builtInUv : Bool) (cbor : Cbor) : Cbor :=
  let asked := (((cbor.uint 0x05).map (1 + builtInUv.toNat)).text "up").bool userPresence
  if builtInUv then (asked.text "uv").bool true else asked

def Cbor.pin (pin : Option (Protocol × List UInt8)) (cbor : Cbor) : Cbor :=
  match pin with
  | none => cbor
  | some (protocol, param) =>
    (((cbor.uint 0x06).byteString param).uint 0x07).uint protocol.id

def ctap2GetAssertion : UInt8 := 0x02

/-- The request for an assertion, its command byte first. -/
def encodeGetAssertion (request : AssertionRequest) (hash : Hash)
    (verification : Option Verification) : Except Error (List UInt8) :=
  let cbor := Cbor.new.map (announcedEntries hmac request hash verification)
  let cbor := (cbor.uint 0x01).text request.application
  let cbor := (cbor.uint 0x02).byteString hash.bytes
  let cbor := cbor.allowList request.allow
  let cbor := cbor.options request.userPresence (Verification.isBuiltIn verification)
  let cbor := cbor.pin (pinParameter hmac hash verification)
  .ok (ctap2GetAssertion :: cbor.bytes)

/-! ### The tree of a request -/

/-- A key before another one in canonical order: by major type, then by length, then bytewise. -/
def KeyBefore (first second : List UInt8) : Prop :=
  first.headD 0 >>> 5 < second.headD 0 >>> 5 ∨
    first.headD 0 >>> 5 = second.headD 0 >>> 5 ∧
      (first.length < second.length ∨ first.length = second.length ∧ first < second)

instance : DecidableRel KeyBefore := fun _ _ =>
  inferInstanceAs (Decidable (_ ∨ _ ∧ (_ ∨ _ ∧ _)))

/-- Every map in a value has its keys in canonical order. -/
inductive Canonical : Value → Prop where
  | uint (value : Nat) : Canonical (.uint value)
  | neg (value : Int) : Canonical (.neg value)
  | bytes (value : List UInt8) : Canonical (.bytes value)
  | text (value : String) : Canonical (.text value)
  | array {items : List Value} : (∀ item ∈ items, Canonical item) → Canonical (.array items)
  | map {entries : List (Value × Value)} :
      (entries.map fun entry => entry.1.encode).Pairwise KeyBefore →
      (∀ entry ∈ entries, Canonical entry.1) → (∀ entry ∈ entries, Canonical entry.2) →
      Canonical (.map entries)
  | bool (value : Bool) : Canonical (.bool value)
  | null : Canonical .null

def allowEntry (handle : List UInt8) : Value × Value :=
  (.uint 0x03, .array [.map [(.text "id", .bytes handle), (.text "type", .text "public-key")]])

def optionEntries (userPresence builtInUv : Bool) : List (Value × Value) :=
  (.text "up", .bool userPresence) :: if builtInUv then [(.text "uv", .bool true)] else []

def pinEntries (pin : Protocol × List UInt8) : List (Value × Value) :=
  [(.uint 0x06, .bytes pin.2), (.uint 0x07, .uint pin.1.id)]

/-- The entries of a request. -/
def requestEntries (request : AssertionRequest) (hash : Hash)
    (verification : Option Verification) : List (Value × Value) :=
  [(.uint 0x01, .text request.application), (.uint 0x02, .bytes hash.bytes)]
    ++ request.allow.toList.map allowEntry
    ++ [(.uint 0x05, .map (optionEntries request.userPresence
      (Verification.isBuiltIn verification)))]
    ++ (pinParameter hmac hash verification).toList.flatMap pinEntries

variable (request : AssertionRequest)

variable (hash : Hash)

theorem length_requestEntries (verification : Option Verification) :
    (requestEntries hmac request hash verification).length
      = announcedEntries hmac request hash verification := by
  rw [requestEntries, announcedEntries]
  cases request.allow with
  | none =>
    cases pinParameter hmac hash verification with
    | none => rfl
    | some pin => rfl
  | some handle =>
    cases pinParameter hmac hash verification with
    | none => rfl
    | some pin => rfl

theorem bytes_allowList (allow : Option (List UInt8)) (cbor : Cbor) :
    (cbor.allowList allow).bytes
      = cbor.bytes ++ (allow.toList.map allowEntry).flatMap encodeEntry := by
  cases allow with
  | none => exact (append_nil _).symm
  | some handle =>
    have written := bytes_entries [allowEntry handle] cbor
    rw [Option.toList_some, map_singleton, ← written]
    rfl

theorem bytes_options (userPresence builtInUv : Bool) (cbor : Cbor) :
    (cbor.options userPresence builtInUv).bytes
      = cbor.bytes ++ [(Value.uint 0x05, Value.map (optionEntries userPresence builtInUv))].flatMap
        encodeEntry := by
  rw [← bytes_entries]
  cases builtInUv with
  | false => rfl
  | true => rfl

theorem bytes_pin (pin : Option (Protocol × List UInt8)) (cbor : Cbor) :
    (cbor.pin pin).bytes = cbor.bytes ++ (pin.toList.flatMap pinEntries).flatMap encodeEntry := by
  rw [← bytes_entries]
  cases pin with
  | none => rfl
  | some pin => rfl

/-- A request is the encoding of its tree. -/
theorem encodeGetAssertion_eq (verification : Option Verification) :
    encodeGetAssertion hmac request hash verification
      = .ok (ctap2GetAssertion ::
        (Value.map (requestEntries hmac request hash verification)).encode) := by
  have first : ∀ cbor : Cbor, ((((cbor.uint 0x01).text request.application).uint 0x02).byteString
      hash.bytes).bytes = cbor.bytes ++ [(Value.uint 0x01, Value.text request.application),
        (Value.uint 0x02, Value.bytes hash.bytes)].flatMap encodeEntry :=
    fun cbor => bytes_entries [(.uint 0x01, .text request.application),
      (.uint 0x02, .bytes hash.bytes)] cbor
  rw [encodeGetAssertion]
  rw [bytes_pin, bytes_options, bytes_allowList, first, encode_map, length_requestEntries,
    requestEntries, flatMap_append, flatMap_append, flatMap_append,
    append_assoc, append_assoc, append_assoc, append_assoc, append_assoc]
  rfl

/-- Something that holds of every entry a request can have holds of its entries. -/
theorem forall_mem_requestEntries {holds : Value × Value → Prop}
    (verification : Option Verification)
    (application : holds (.uint 0x01, .text request.application))
    (hashed : holds (.uint 0x02, .bytes hash.bytes))
    (allowed : ∀ handle ∈ request.allow, holds (allowEntry handle))
    (asked : ∀ up uv, holds (.uint 0x05, .map (optionEntries up uv)))
    (param : ∀ pin ∈ pinParameter hmac hash verification, holds (.uint 0x06, .bytes pin.2))
    (protocol : ∀ protocol : Protocol, holds (.uint 0x07, .uint protocol.id)) :
    ∀ entry ∈ requestEntries hmac request hash verification, holds entry := by
  intro entry among
  rw [requestEntries, mem_append, mem_append, mem_append, mem_map,
    mem_flatMap, mem_singleton] at among
  obtain ((first | ⟨handle, used, rfl⟩) | rfl) | ⟨pin, proved, last⟩ := among
  · obtain rfl | second := mem_cons.mp first
    · exact application
    · exact mem_singleton.mp second ▸ hashed
  · exact allowed handle (Option.mem_toList.mp used)
  · exact asked _ _
  · obtain rfl | second := mem_cons.mp last
    · exact param pin (Option.mem_toList.mp proved)
    · exact mem_singleton.mp second ▸ protocol pin.1

theorem length_pinParameter {hash : Hash} {verification : Option Verification}
    {pin : Protocol × List UInt8} (proved : pin ∈ pinParameter hmac hash verification) :
    pin.2.length ≤ 32 := by
  cases verification with
  | none => cases proved
  | some verification =>
    cases verification with
    | builtIn => cases proved
    | pin protocol token =>
      cases proved
      have whole := (hmac token hash.bytes).length_bytes
      cases protocol with
      | one =>
        refine Nat.le_trans ?_ (Nat.le_of_eq whole)
        exact length_take_le' _ _
      | two => exact Nat.le_of_eq whole

theorem mem_allowCredential {request : AssertionRequest} {handle : List UInt8}
    (used : handle ∈ request.allow) : handle ∈ request.allowCredential :=
  (Option.mem_filter_iff.mp used).1

/-- The tree of a request can be written. -/
theorem writable_request (verification : Option Verification) :
    Writable (.map (requestEntries hmac request hash verification)) := by
  have key {number : Nat} (small : number < 8) : Writable (.uint number) := .uint (by omega)
  have word {text : String} (short : (utf8Bytes text.toList).length < 16) :
      Writable (.text text) := .text (by omega)
  refine .map ?_ ?_ ?_
  · rw [length_requestEntries, announcedEntries]
    have allow := Bool.toNat_le request.allow.isSome
    have pin := Bool.toNat_le (pinParameter hmac hash verification).isSome
    omega
  · refine forall_mem_requestEntries hmac request hash verification (key (by decide))
      (key (by decide)) ?_ ?_ ?_ ?_
    · exact fun handle _ => key (by decide)
    · exact fun up uv => key (by decide)
    · exact fun pin _ => key (by decide)
    · exact fun protocol => key (by decide)
  · refine forall_mem_requestEntries hmac request hash verification
      (.text request.application_length) (.bytes ?_) ?_ ?_ ?_ ?_
    · have whole := hash.length_bytes
      omega
    · intro handle used
      have long := request.allowCredential_length handle (mem_allowCredential used)
      refine .array (show 1 < 2 ^ 63 by decide) fun item among => ?_
      rw [mem_singleton.mp among]
      refine .map (show 2 < 2 ^ 63 by decide) ?_ ?_
      · intro entry among
        obtain rfl | second := mem_cons.mp among
        · exact word (by decide)
        · exact mem_singleton.mp second ▸ word (by decide)
      · intro entry among
        obtain rfl | second := mem_cons.mp among
        · exact .bytes long
        · exact mem_singleton.mp second ▸ word (by decide)
    · intro up uv
      have entries : ∀ entry ∈ optionEntries up uv, Writable entry.1 ∧ Writable entry.2 := by
        intro entry among
        cases uv with
        | false => exact mem_singleton.mp among ▸ ⟨word (by decide), .bool up⟩
        | true =>
          obtain rfl | second := mem_cons.mp among
          · exact ⟨word (by decide), .bool up⟩
          · exact mem_singleton.mp second ▸ ⟨word (by decide), .bool true⟩
      refine .map ?_ (fun entry among => (entries entry among).1)
        fun entry among => (entries entry among).2
      cases uv with
      | false => exact (by decide : 1 < 2 ^ 63)
      | true => exact (by decide : 2 < 2 ^ 63)
    · intro pin proved
      have short := length_pinParameter hmac proved
      exact .bytes (by omega)
    · intro protocol
      cases protocol with
      | one => exact key (by decide)
      | two => exact key (by decide)

theorem entriesDepth_le {entries : List (Value × Value)} {bound : Nat}
    (each : ∀ entry ∈ entries, entry.1.depth < bound ∧ entry.2.depth < bound) :
    entriesDepth entries ≤ bound := by
  induction entries with
  | nil => exact Nat.zero_le _
  | cons entry entries ih =>
    have first := each entry mem_cons_self
    have rest := ih fun other among => each other (mem_cons_of_mem _ among)
    rw [entriesDepth]
    omega

theorem depth_request (verification : Option Verification) :
    (Value.map (requestEntries hmac request hash verification)).depth ≤ 3 := by
  have flat : 0 < 3 ∧ 0 < 3 := by decide
  refine entriesDepth_le (forall_mem_requestEntries hmac request hash verification flat flat
    (fun _ _ => ?_) (fun up uv => ?_) (fun _ _ => flat) fun _ => flat)
  · exact (by decide : 0 < 3 ∧ 2 < 3)
  · cases uv with
    | false => exact (by decide : 0 < 3 ∧ 1 < 3)
    | true => exact (by decide : 0 < 3 ∧ 1 < 3)

/-- The keys a request can have, encoded. -/
def requestKeys : List (List UInt8) := [[0x01], [0x02], [0x03], [0x05], [0x06], [0x07]]

theorem keys_request (verification : Option Verification) :
    ((requestEntries hmac request hash verification).map fun entry => entry.1.encode).Sublist
      requestKeys := by
  rw [requestEntries]
  cases request.allow with
  | none =>
    cases pinParameter hmac hash verification with
    | none => exact (by decide : [[0x01], [0x02], [0x05]].Sublist requestKeys)
    | some pin => exact (by decide : [[0x01], [0x02], [0x05], [0x06], [0x07]].Sublist requestKeys)
  | some handle =>
    cases pinParameter hmac hash verification with
    | none => exact (by decide : [[0x01], [0x02], [0x03], [0x05]].Sublist requestKeys)
    | some pin =>
      exact (by decide : [[0x01], [0x02], [0x03], [0x05], [0x06], [0x07]].Sublist requestKeys)

/-- Every map of a request has its keys in canonical order. -/
theorem canonical_request (verification : Option Verification) :
    Canonical (.map (requestEntries hmac request hash verification)) := by
  refine .map ?_ ?_ ?_
  · exact (by decide : requestKeys.Pairwise KeyBefore).sublist
      (keys_request hmac request hash verification)
  · exact forall_mem_requestEntries hmac request hash verification (.uint _) (.uint _)
      (fun _ _ => .uint _) (fun _ _ => .uint _) (fun _ _ => .uint _) fun _ => .uint _
  · refine forall_mem_requestEntries hmac request hash verification (.text _) (.bytes _)
      (fun handle _ => ?_) (fun up uv => ?_) (fun _ _ => .bytes _) fun _ => .uint _
    · refine .array fun item among => ?_
      rw [mem_singleton.mp among]
      refine .map ?_ ?_ ?_
      · exact (by decide +kernel : List.Pairwise KeyBefore
          [(Value.text "id").encode, (Value.text "type").encode])
      · intro entry among
        obtain rfl | second := mem_cons.mp among
        · exact .text _
        · exact mem_singleton.mp second ▸ .text _
      · intro entry among
        obtain rfl | second := mem_cons.mp among
        · exact .bytes _
        · exact mem_singleton.mp second ▸ .text _
    · have entries : ∀ entry ∈ optionEntries up uv, Canonical entry.1 ∧ Canonical entry.2 := by
        intro entry among
        cases uv with
        | false => exact mem_singleton.mp among ▸ ⟨.text _, .bool _⟩
        | true =>
          obtain rfl | second := mem_cons.mp among
          · exact ⟨.text _, .bool _⟩
          · exact mem_singleton.mp second ▸ ⟨.text _, .bool _⟩
      refine .map ?_ (fun entry among => (entries entry among).1)
        fun entry among => (entries entry among).2
      cases uv with
      | false => exact (by decide +kernel : List.Pairwise KeyBefore [(Value.text "up").encode])
      | true =>
        exact (by decide +kernel : List.Pairwise KeyBefore
          [(Value.text "up").encode, (Value.text "uv").encode])

end Request

/-- What the writer wrote of a tree is decoded to the tree and to the last byte, and no bytes
decoded to it are fewer; any bytes are decoded within themselves or refused, every container
reserving no more entries than bytes are left; and a request for an assertion is decoded with
nothing left to a map of the announced size, canonical at every level. -/
theorem cbor_round_trip :
    (∀ value : Value, Writable value → value.depth ≤ maxDepth → ∀ rest,
      decode ((value.write .new).bytes ++ rest) = .ok (value, (value.write .new).bytes.length)) ∧
    (∀ (bytes : List UInt8) (value : Value) (used : Nat), decode bytes = .ok (value, used) →
      (value.write .new).bytes.length ≤ used) ∧
    (∀ bytes : List UInt8,
      ((∃ value used, decode bytes = .ok (value, used) ∧ used ≤ bytes.length) ∨
        ∃ error, decode bytes = .error error) ∧
      ∀ reservation ∈ reservations bytes, reservation.entries ≤ reservation.left) ∧
    ∀ (hmac : List UInt8 → List UInt8 → Hash) (request : AssertionRequest) (hash : Hash)
        (verification : Option Verification),
      ∃ parameters entries,
        encodeGetAssertion hmac request hash verification
          = .ok (ctap2GetAssertion :: parameters) ∧
        headBytes 5 (announcedEntries hmac request hash verification) <+: parameters ∧
        decode parameters = .ok (.map entries, parameters.length) ∧
        entries.length = announcedEntries hmac request hash verification ∧
        Canonical (.map entries) := by
  refine ⟨?_, ?_, ?_, ?_⟩
  · exact fun value writable shallow rest => decode_encode writable shallow rest
  · exact fun bytes value used decoded => (decode_bounds decoded).2
  · intro bytes
    obtain ⟨_, _, _, fit, _⟩ := readFirst_sound bytes
    refine ⟨?_, fit⟩
    cases decoded : decode bytes with
    | error error => exact .inr ⟨error, rfl⟩
    | ok read => exact .inl ⟨read.1, read.2, rfl, (decode_bounds decoded).1⟩
  · intro hmac request hash verification
    have shallow := Nat.le_trans (depth_request hmac request hash verification)
      (by decide : 3 ≤ maxDepth)
    have decoded := decode_encode (writable_request hmac request hash verification) shallow []
    rw [append_nil] at decoded
    have announced := length_requestEntries hmac request hash verification
    refine ⟨_, _, encodeGetAssertion_eq hmac request hash verification, ?_, decoded, announced,
      canonical_request hmac request hash verification⟩
    rw [encode_map, announced]
    exact prefix_append _ _

/-- The extremes of both signs, nested in a map and an array. -/
theorem cbor_round_trip_extremes :
    decode (((Value.map [(.uint 0, .array [.neg (-9223372036854775808), .uint (2 ^ 64 - 1)])]).write
        .new).bytes ++ [7])
      = .ok (.map [(.uint 0, .array [.neg (-9223372036854775808), .uint (2 ^ 64 - 1)])],
        ((Value.map [(.uint 0, .array [.neg (-9223372036854775808), .uint (2 ^ 64 - 1)])]).write
          .new).bytes.length) := by
  refine cbor_round_trip.1 _ (.map (by decide) ?_ ?_) (by decide) [7]
  · intro entry among
    rw [mem_singleton.mp among]
    exact .uint (by decide)
  · intro entry among
    rw [mem_singleton.mp among]
    refine .array (by decide) fun item among => ?_
    obtain rfl | second := mem_cons.mp among
    · exact .neg (by decide) (by decide)
    · exact mem_singleton.mp second ▸ .uint (by decide)

end Oryxis.Fido2

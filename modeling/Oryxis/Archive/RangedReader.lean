/-
This file models the reader that makes a plain file of a source of positioned reads: chunks of a
fixed size are fetched, by as many short reads as the source likes, and kept in a small cache with
a queue of the keys to evict. The reference is a cursor over the content itself. Reads agree with
it everywhere, and the cache stays consistent in every run; a relative seek agrees as long as it
stays below `2 ^ 64`, since the reader cuts the position it computes down to 64 bits.
-/

import Mathlib.Data.List.Nodup
import Mathlib.Algebra.Ring.Int.Defs
import Mathlib.Algebra.Ring.Nat

namespace Oryxis.Archive.Ranged

open List

/-! ### Sources -/

/-- A remote content and how a source serves it: for each call, of the bytes asked for at an
offset, as many as it likes, but at least one before the end. -/
structure RangedSource where
  content : List UInt8
  serve : Nat → Nat → Nat → Nat
  fits : content.length < 2 ^ 64
  least : ∀ call offset room, 0 < room → offset < content.length → 0 < serve call offset room
  most : ∀ call offset room, serve call offset room ≤ room

namespace RangedSource

/-- The bytes the given call reads at an offset. -/
def readAt (source : RangedSource) (call offset room : Nat) : List UInt8 :=
  (source.content.drop offset).take (source.serve call offset room)

theorem readAt_ne_nil (source : RangedSource) {call offset room : Nat} (asked : 0 < room)
    (inside : offset < source.content.length) : source.readAt call offset room ≠ [] := by
  have positive := source.least call offset room asked inside
  intro nothing
  have empty := congrArg List.length nothing
  rw [readAt, length_take, length_drop, length_nil] at empty
  omega

theorem length_readAt_le (source : RangedSource) (call offset room : Nat) :
    (source.readAt call offset room).length ≤ room := by
  rw [readAt, length_take]
  exact Nat.le_trans (Nat.min_le_left _ _) (source.most call offset room)

end RangedSource

/-- Why an operation gives no result; `spins` is a loop that makes no progress, and no run comes
to it. -/
inductive Failure where
  | unexpectedEof
  | invalidInput
  | spins
  deriving DecidableEq, Repr

inductive SeekFrom where
  | start (offset : UInt64)
  | fromEnd (delta : Int64)
  | current (delta : Int64)

/-! ### The reader -/

structure CachedRangeReader where
  src : RangedSource
  calls : Nat
  len : Nat
  pos : Nat
  chunkSize : Nat
  maxChunks : Nat
  chunks : List (Nat × List UInt8)
  order : List Nat
  chunkSizePositive : 0 < chunkSize
  maxChunksPositive : 0 < maxChunks

namespace CachedRangeReader

def new (src : RangedSource) (chunkSize maxChunks : Nat) (sized : 0 < chunkSize)
    (capacity : 0 < maxChunks) : CachedRangeReader :=
  ⟨src, 0, src.content.length, 0, chunkSize, maxChunks, [], [], sized, capacity⟩

def called (calls : Nat) (reader : CachedRangeReader) : CachedRangeReader :=
  { reader with calls := calls }

def moved (pos : Nat) (reader : CachedRangeReader) : CachedRangeReader :=
  { reader with pos := pos }

def evicted (reader : CachedRangeReader) (evict : Nat) (order : List Nat) : CachedRangeReader :=
  { reader with
    chunks := reader.chunks.filter fun entry => entry.1 ≠ evict
    order := order }

def inserted (reader : CachedRangeReader) (idx : Nat) (buf : List UInt8) : CachedRangeReader :=
  { reader with
    chunks := (idx, buf) :: reader.chunks
    order := reader.order ++ [idx] }

/-- Read until the buffer is full, and count the calls. -/
def fill (src : RangedSource) (offset want : Nat) (calls : Nat) (buf : List UInt8) :
    Except Failure (List UInt8) × Nat :=
  if _short : buf.length < want then
    let got := src.readAt calls (offset + buf.length) (want - buf.length)
    if _empty : got = [] then (.error .unexpectedEof, calls + 1)
    else fill src offset want (calls + 1) (buf ++ got)
  else (.ok buf, calls)
termination_by want - buf.length
decreasing_by
  have some := length_pos_iff.mpr _empty
  rw [length_append]
  exact Nat.sub_lt_sub_left _short (Nat.lt_add_of_pos_right some)

/-- Make room for one more chunk. -/
def evict (reader : CachedRangeReader) : CachedRangeReader :=
  if reader.maxChunks ≤ reader.order.length then
    match reader.order with
    | [] => reader
    | first :: order => reader.evicted first order
  else reader

/-- Fetch or recall the chunk with an index. -/
def chunk (reader : CachedRangeReader) (idx : Nat) :
    Except Failure (List UInt8) × CachedRangeReader :=
  match reader.chunks.lookup idx with
  | some bytes => (.ok bytes, reader)
  | none =>
    let offset := idx * reader.chunkSize
    let want := min (reader.len - offset) reader.chunkSize
    match fill reader.src offset want reader.calls [] with
    | (.error failure, calls) => (.error failure, reader.called calls)
    | (.ok buf, calls) => (.ok buf, ((reader.called calls).evict).inserted idx buf)

/-- The loop of a read, with the bytes written so far. -/
def readLoop (room : Nat) (written : List UInt8) (reader : CachedRangeReader) :
    Except Failure (List UInt8) × CachedRangeReader :=
  if _more : written.length < room ∧ reader.pos < reader.len then
    let within := reader.pos % reader.chunkSize
    match reader.chunk (reader.pos / reader.chunkSize) with
    | (.error failure, reader) => (.error failure, reader)
    | (.ok bytes, after) =>
      let take := min (bytes.length - within) (room - written.length)
      if _none : take = 0 then (.error .spins, after)
      else
        readLoop room (written ++ (bytes.drop within).take take)
          (after.moved (reader.pos + take))
  else (.ok written, reader)
termination_by room - written.length
decreasing_by
  rw [length_append, length_take, length_drop]
  omega

def read (room : Nat) (reader : CachedRangeReader) :
    Except Failure (List UInt8) × CachedRangeReader :=
  if room = 0 ∨ reader.len ≤ reader.pos then (.ok [], reader) else readLoop room [] reader

/-- Where a seek leads, as a signed number of 128 bits. -/
def target (len pos : Nat) : SeekFrom → Int
  | .start offset => offset.toNat
  | .fromEnd delta => len + delta.toInt
  | .current delta => pos + delta.toInt

def seek (origin : SeekFrom) (reader : CachedRangeReader) :
    Except Failure Nat × CachedRangeReader :=
  let target := target reader.len reader.pos origin
  if target < 0 then (.error .invalidInput, reader)
  else
    let pos := (target % 2 ^ 64).toNat
    (.ok pos, reader.moved pos)

end CachedRangeReader

/-! ### The content itself -/

/-- A position in a content. -/
structure Cursor where
  content : List UInt8
  pos : Nat

namespace Cursor

def read (room : Nat) (cursor : Cursor) : Except Failure (List UInt8) × Cursor :=
  let bytes := (cursor.content.drop cursor.pos).take room
  (.ok bytes, { cursor with pos := cursor.pos + bytes.length })

/-- A seek to a position of 64 bits; any other place is refused. -/
def seek (origin : SeekFrom) (cursor : Cursor) : Except Failure Nat × Cursor :=
  let target := CachedRangeReader.target cursor.content.length cursor.pos origin
  if target < 0 ∨ 2 ^ 64 ≤ target then (.error .invalidInput, cursor)
  else (.ok target.toNat, { cursor with pos := target.toNat })

end Cursor

/-! ### Runs -/

inductive Operation where
  | read (room : Nat)
  | seek (origin : SeekFrom)

/-- What an operation gives: the bytes read, or the position reached. -/
inductive Answer where
  | read (bytes : Except Failure (List UInt8))
  | sought (pos : Except Failure Nat)
  deriving DecidableEq

def CachedRangeReader.step (operation : Operation) (reader : CachedRangeReader) :
    Answer × CachedRangeReader :=
  match operation with
  | .read room => ((.read (reader.read room).1), (reader.read room).2)
  | .seek origin => ((.sought (reader.seek origin).1), (reader.seek origin).2)

def Cursor.step (operation : Operation) (cursor : Cursor) : Answer × Cursor :=
  match operation with
  | .read room => ((.read (cursor.read room).1), (cursor.read room).2)
  | .seek origin => ((.sought (cursor.seek origin).1), (cursor.seek origin).2)

/-- The answers of a run, each with the position after it. -/
def CachedRangeReader.run (reader : CachedRangeReader) : List Operation → List (Answer × Nat)
  | [] => []
  | operation :: operations =>
    let stepped := reader.step operation
    (stepped.1, stepped.2.pos) :: stepped.2.run operations

def CachedRangeReader.after (reader : CachedRangeReader) (operations : List Operation) :
    CachedRangeReader :=
  operations.foldl (fun reader operation => (reader.step operation).2) reader

def Cursor.run (cursor : Cursor) : List Operation → List (Answer × Nat)
  | [] => []
  | operation :: operations =>
    let stepped := cursor.step operation
    (stepped.1, stepped.2.pos) :: stepped.2.run operations

/-! ### The cache -/

namespace CachedRangeReader

/-- Every cached chunk is the content's, and the queue holds the keys of the cache. -/
structure Caches (reader : CachedRangeReader) : Prop where
  len : reader.len = reader.src.content.length
  bytes : ∀ entry ∈ reader.chunks, entry.2 =
    (reader.src.content.drop (entry.1 * reader.chunkSize)).take reader.chunkSize
  keys : reader.order.Perm (reader.chunks.map Prod.fst)
  distinct : reader.order.Nodup
  bounded : reader.order.length ≤ reader.maxChunks

theorem fill_eq (src : RangedSource) (offset want calls : Nat) (buf : List UInt8)
    (inside : offset + want ≤ src.content.length) (full : buf.length ≤ want)
    (front : buf = (src.content.drop offset).take buf.length) :
    (fill src offset want calls buf).1 = .ok ((src.content.drop offset).take want) := by
  induction calls, buf using fill.induct src offset want with
  | case1 calls buf short got empty =>
    exact absurd empty (src.readAt_ne_nil (by omega) (by omega))
  | case2 calls buf short got some inductionHypothesis =>
    rw [fill, dif_pos short, dif_neg some]
    have most := src.length_readAt_le calls (offset + buf.length) (want - buf.length)
    have exactly : got = (src.content.drop (offset + buf.length)).take got.length := by
      change (src.content.drop (offset + buf.length)).take _ = _
      rw [take_eq_take_iff]
      change _ = min (List.take _ _).length _
      rw [length_take]
      omega
    refine inductionHypothesis ?_ ?_
    · rw [length_append]
      change buf.length + (src.readAt calls (offset + buf.length) (want - buf.length)).length ≤ want
      omega
    · rw [length_append, take_add, ← front, drop_drop, ← exactly]
  | case3 calls buf long =>
    have same : buf.length = want := Nat.le_antisymm full (Nat.not_lt.mp long)
    rw [fill, dif_neg long, ← same, ← front]

/-- Two readers of one source at one position, with caches of their own. -/
structure Alike (reader other : CachedRangeReader) : Prop where
  src : other.src = reader.src
  len : other.len = reader.len
  pos : other.pos = reader.pos
  chunkSize : other.chunkSize = reader.chunkSize
  maxChunks : other.maxChunks = reader.maxChunks

theorem Alike.refl (reader : CachedRangeReader) : Alike reader reader := ⟨rfl, rfl, rfl, rfl, rfl⟩

variable {reader : CachedRangeReader}

theorem Caches.evicted {first : Nat} {order : List Nat} (caches : reader.Caches)
    (queue : reader.order = first :: order) :
    (reader.evicted first order).Caches := by
  obtain ⟨len, bytes, keys, distinct, bounded⟩ := caches
  rw [queue] at keys distinct bounded
  rw [nodup_cons] at distinct
  refine ⟨len, ?_, ?_, distinct.2, Nat.le_of_succ_le bounded⟩
  · intro entry member
    exact bytes entry (mem_filter.mp member).1
  · have kept := keys.filter (· ≠ first)
    rw [filter_cons_of_neg (by simp), filter_map] at kept
    have all : order.filter (· ≠ first) = order := by
      rw [filter_eq_self]
      intro idx member
      rw [decide_eq_true_eq]
      rintro rfl
      exact distinct.1 member
    rw [all] at kept
    exact kept

theorem Caches.evict (caches : reader.Caches) :
    reader.evict.Caches ∧ reader.evict.order.length < reader.maxChunks ∧ Alike reader reader.evict ∧
      reader.evict.chunks ⊆ reader.chunks := by
  have capacity := reader.maxChunksPositive
  unfold CachedRangeReader.evict
  split
  · rename_i full
    cases queue : reader.order with
    | nil =>
      rw [queue] at full
      exact absurd full (Nat.not_le.mpr capacity)
    | cons first order =>
      have bounded := caches.bounded
      rw [queue] at bounded
      refine ⟨caches.evicted queue, bounded, ⟨rfl, rfl, rfl, rfl, rfl⟩, ?_⟩
      exact filter_subset_self _
  · rename_i room
    exact ⟨caches, Nat.not_le.mp room, .refl reader, Subset.refl _⟩

theorem Caches.inserted {idx : Nat} (caches : reader.Caches)
    (room : reader.order.length < reader.maxChunks)
    (absent : ∀ entry ∈ reader.chunks, entry.1 ≠ idx) :
    (reader.inserted idx ((reader.src.content.drop (idx * reader.chunkSize)).take
      reader.chunkSize)).Caches := by
  obtain ⟨len, bytes, keys, distinct, bounded⟩ := caches
  have fresh : idx ∉ reader.order := by
    intro member
    obtain ⟨entry, cached, same⟩ := mem_map.mp (keys.mem_iff.mp member)
    exact absent entry cached same
  refine ⟨len, ?_, ?_, ?_, ?_⟩
  · exact forall_mem_cons.mpr ⟨rfl, bytes⟩
  · exact (perm_append_singleton idx reader.order).trans (keys.cons idx)
  · exact distinct.append (nodup_singleton idx) (by simpa using fresh)
  · change (reader.order ++ [idx]).length ≤ reader.maxChunks
    rw [length_append, length_singleton]
    exact room

theorem Caches.called (caches : reader.Caches) (calls : Nat) :
    (reader.called calls).Caches :=
  ⟨caches.len, caches.bytes, caches.keys, caches.distinct, caches.bounded⟩

theorem Caches.moved (caches : reader.Caches) (pos : Nat) :
    (reader.moved pos).Caches :=
  ⟨caches.len, caches.bytes, caches.keys, caches.distinct, caches.bounded⟩

/-- The chunk fetched or recalled is the content's, and the cache stays consistent. -/
theorem Caches.chunk (caches : reader.Caches) (idx : Nat)
    (inside : idx * reader.chunkSize < reader.len) :
    (reader.chunk idx).1 =
        .ok ((reader.src.content.drop (idx * reader.chunkSize)).take reader.chunkSize) ∧
      (reader.chunk idx).2.Caches ∧ Alike reader (reader.chunk idx).2 := by
  unfold CachedRangeReader.chunk
  cases recalled : reader.chunks.lookup idx with
  | some bytes =>
    obtain ⟨before, behind, whole, _⟩ := lookup_eq_some_iff.mp recalled
    have cached : (idx, bytes) ∈ reader.chunks := by
      rw [whole]
      exact mem_append_right _ mem_cons_self
    exact ⟨congrArg Except.ok (caches.bytes _ cached), caches, .refl reader⟩
  | none =>
    have absent : ∀ entry ∈ reader.chunks, entry.1 ≠ idx := by
      intro entry member same
      have differs := lookup_eq_none_iff.mp recalled entry member
      rw [same, bne_self_eq_false] at differs
      cases differs
    have filled := fill_eq reader.src (idx * reader.chunkSize)
      (min (reader.len - idx * reader.chunkSize) reader.chunkSize) reader.calls []
      (by rw [← caches.len]; omega) (Nat.zero_le _) rfl
    have whole : (reader.src.content.drop (idx * reader.chunkSize)).take
          (min (reader.len - idx * reader.chunkSize) reader.chunkSize) =
        (reader.src.content.drop (idx * reader.chunkSize)).take reader.chunkSize := by
      rw [take_eq_take_iff, length_drop, caches.len]
      omega
    rw [whole] at filled
    simp only
    generalize fill reader.src (idx * reader.chunkSize)
      (min (reader.len - idx * reader.chunkSize) reader.chunkSize) reader.calls [] = result at filled ⊢
    obtain ⟨outcome, calls⟩ := result
    cases filled
    obtain ⟨evicted, room, alike, fewer⟩ := (caches.called calls).evict
    refine ⟨rfl, ?_, ⟨alike.src, alike.len, alike.pos, alike.chunkSize, alike.maxChunks⟩⟩
    have inserted := evicted.inserted (by rw [alike.maxChunks]; exact room)
      fun entry member => absent entry (fewer member)
    rw [alike.src, alike.chunkSize] at inserted
    exact inserted

/-- What is taken of a chunk is what the content holds at the position. -/
theorem slice_of_chunk (content : List UInt8) (start within size room : Nat)
    (small : within < size) (inside : start + within < content.length) (asked : 0 < room) :
    let bytes := (content.drop start).take size
    let take := min (bytes.length - within) room
    0 < take ∧ take ≤ room ∧ take ≤ content.length - (start + within) ∧
      (bytes.drop within).take take = (content.drop (start + within)).take take := by
  have length : ((content.drop start).take size).length = min size (content.length - start) := by
    rw [length_take, length_drop]
  simp only [length]
  refine ⟨by omega, Nat.min_le_right _ _, by omega, ?_⟩
  rw [drop_take, drop_drop, take_take]
  congr 1
  omega

/-- A read loop writes what the content holds from the position on. -/
theorem Caches.readLoop {reader : CachedRangeReader} (caches : reader.Caches) (room : Nat)
    (written : List UInt8) :
    (reader.readLoop room written).1 = .ok (written ++
        (reader.src.content.drop reader.pos).take (room - written.length)) ∧
      (reader.readLoop room written).2.Caches ∧
      Alike (reader.moved (reader.pos +
          ((reader.src.content.drop reader.pos).take (room - written.length)).length))
        (reader.readLoop room written).2 := by
  rw [CachedRangeReader.readLoop]
  split
  · rename_i more
    obtain ⟨unfilled, inside⟩ := more
    have divided := Nat.div_add_mod reader.pos reader.chunkSize
    rw [Nat.mul_comm] at divided
    have small := Nat.mod_lt reader.pos reader.chunkSizePositive
    obtain ⟨got, cached, alike⟩ := caches.chunk (reader.pos / reader.chunkSize) (by omega)
    simp only
    generalize reader.chunk (reader.pos / reader.chunkSize) = fetched at got cached alike ⊢
    obtain ⟨outcome, after⟩ := fetched
    cases got
    obtain ⟨positive, fewer, left, same⟩ := slice_of_chunk reader.src.content
      (reader.pos / reader.chunkSize * reader.chunkSize) (reader.pos % reader.chunkSize)
      reader.chunkSize (room - written.length) small (by rw [divided, ← caches.len]; exact inside) (Nat.sub_pos_of_lt unfilled)
    simp only
    generalize min (((reader.src.content.drop _).take _).length - _) _ = take at positive fewer left same ⊢
    rw [divided] at left same
    rw [dif_neg (Nat.ne_of_gt positive), same]
    have piece : ((reader.src.content.drop reader.pos).take take).length = take := by
      rw [length_take, length_drop]
      omega
    obtain ⟨gotRest, cachesRest, alikeRest⟩ := (cached.moved (reader.pos + take)).readLoop room
      (written ++ (reader.src.content.drop reader.pos).take take)
    have source : (after.moved (reader.pos + take)).src = reader.src := alike.src
    have position : (after.moved (reader.pos + take)).pos = reader.pos + take := rfl
    have asked : room - (written ++ (reader.src.content.drop reader.pos).take take).length =
        room - written.length - take := by
      rw [length_append, piece]
      omega
    have whole : (reader.src.content.drop reader.pos).take (room - written.length) =
        (reader.src.content.drop reader.pos).take take ++
          (reader.src.content.drop (reader.pos + take)).take (room - written.length - take) := by
      rw [← drop_drop, ← take_add]
      congr 1
      omega
    rw [source, position, asked] at gotRest alikeRest
    refine ⟨?_, cachesRest, ?_⟩
    · rw [whole, ← append_assoc]
      exact gotRest
    · rw [whole, length_append, piece, ← Nat.add_assoc]
      exact ⟨alikeRest.src.trans alike.src, alikeRest.len.trans alike.len, alikeRest.pos,
        alikeRest.chunkSize.trans alike.chunkSize, alikeRest.maxChunks.trans alike.maxChunks⟩
  · rename_i done
    have nothing : (reader.src.content.drop reader.pos).take (room - written.length) = [] := by
      rw [take_eq_nil_iff, drop_eq_nil_iff, ← caches.len]
      omega
    rw [nothing]
    refine ⟨congrArg Except.ok (append_nil written).symm, caches, ?_⟩
    exact ⟨rfl, rfl, rfl, rfl, rfl⟩
termination_by room - written.length
decreasing_by
  rw [length_append, piece]
  omega

/-! ### Runs of the reader -/

theorem Caches.read (caches : reader.Caches) (room : Nat) :
    (reader.read room).1 = .ok ((reader.src.content.drop reader.pos).take room) ∧
      (reader.read room).2.Caches ∧
      Alike (reader.moved (reader.pos + ((reader.src.content.drop reader.pos).take room).length))
        (reader.read room).2 := by
  unfold CachedRangeReader.read
  split
  · rename_i nothing
    have empty : (reader.src.content.drop reader.pos).take room = [] := by
      rw [take_eq_nil_iff, drop_eq_nil_iff, ← caches.len]
      exact nothing
    rw [empty]
    exact ⟨rfl, caches, ⟨rfl, rfl, rfl, rfl, rfl⟩⟩
  · exact caches.readLoop room []

theorem Caches.seek (caches : reader.Caches) (origin : SeekFrom) :
    (reader.seek origin).2.Caches := by
  unfold CachedRangeReader.seek
  simp only
  split
  · exact caches
  · exact caches.moved _

theorem Caches.step (caches : reader.Caches) (operation : Operation) :
    (reader.step operation).2.Caches := by
  cases operation with
  | read room => exact (caches.read room).2.1
  | seek origin => exact caches.seek origin

theorem Caches.maxChunks_step (caches : reader.Caches) (operation : Operation) :
    (reader.step operation).2.maxChunks = reader.maxChunks := by
  cases operation with
  | read room => exact (caches.read room).2.2.maxChunks
  | seek origin =>
    change (reader.seek origin).2.maxChunks = reader.maxChunks
    unfold CachedRangeReader.seek
    simp only
    split <;> rfl

/-- The cache is consistent after every run, and its capacity the same. -/
theorem Caches.after (caches : reader.Caches) (operations : List Operation) :
    (reader.after operations).Caches ∧ (reader.after operations).maxChunks = reader.maxChunks := by
  induction operations generalizing reader with
  | nil => exact ⟨caches, rfl⟩
  | cons operation operations inductionHypothesis =>
    obtain ⟨reached, same⟩ := inductionHypothesis (caches.step operation)
    exact ⟨reached, same.trans (caches.maxChunks_step operation)⟩

theorem caches_new (src : RangedSource) {chunkSize maxChunks : Nat} (sized : 0 < chunkSize)
    (capacity : 0 < maxChunks) : (new src chunkSize maxChunks sized capacity).Caches :=
  ⟨rfl, forall_mem_nil _, .nil, nodup_nil, Nat.zero_le _⟩

end CachedRangeReader

/-- The cursor at the position of a reader. -/
def CachedRangeReader.cursor (reader : CachedRangeReader) : Cursor :=
  ⟨reader.src.content, reader.pos⟩

/-- The operation seeks no further than 64 bits reach. -/
def Operation.Within (cursor : Cursor) : Operation → Prop
  | .read _ => True
  | .seek origin =>
    CachedRangeReader.target cursor.content.length cursor.pos origin < 2 ^ 64

/-- No seek of a run goes further than 64 bits reach, by the positions in the content. -/
def WithinReach (cursor : Cursor) : List Operation → Prop
  | [] => True
  | operation :: operations =>
    operation.Within cursor ∧ WithinReach (cursor.step operation).2 operations

variable {reader : CachedRangeReader}

theorem CachedRangeReader.Caches.agrees (caches : reader.Caches) {operation : Operation}
    (within : operation.Within reader.cursor) :
    (reader.step operation).1 = (reader.cursor.step operation).1 ∧
      (reader.step operation).2.cursor = (reader.cursor.step operation).2 := by
  cases operation with
  | read room =>
    obtain ⟨got, _, alike⟩ := caches.read room
    exact ⟨congrArg Answer.read got, congrArg₂ Cursor.mk
      (congrArg RangedSource.content alike.src) alike.pos⟩
  | seek origin =>
    change CachedRangeReader.target reader.src.content.length reader.pos origin < 2 ^ 64 at within
    rw [← caches.len] at within
    simp only [CachedRangeReader.step, Cursor.step, CachedRangeReader.seek, Cursor.seek,
      CachedRangeReader.cursor, ← caches.len]
    generalize CachedRangeReader.target reader.len reader.pos origin = target at within ⊢
    by_cases before : target < 0
    · rw [if_pos before, if_pos (.inl before)]
      exact ⟨rfl, rfl⟩
    · have asIs : target % 2 ^ 64 = target := Int.emod_eq_of_lt (Int.not_lt.mp before) within
      rw [if_neg before, if_neg (not_or.mpr ⟨before, Int.not_le.mpr within⟩), asIs]
      exact ⟨rfl, rfl⟩

/-- A seek further than 64 bits reach is answered with a position, and refused by the content. -/
theorem CachedRangeReader.Caches.differs (caches : reader.Caches) {operation : Operation}
    (beyond : ¬operation.Within reader.cursor) :
    (reader.step operation).1 ≠ (reader.cursor.step operation).1 := by
  cases operation with
  | read room => exact absurd trivial beyond
  | seek origin =>
    change ¬CachedRangeReader.target reader.src.content.length reader.pos origin < 2 ^ 64 at beyond
    rw [← caches.len] at beyond
    simp only [CachedRangeReader.step, Cursor.step, CachedRangeReader.seek, Cursor.seek,
      CachedRangeReader.cursor, ← caches.len]
    generalize CachedRangeReader.target reader.len reader.pos origin = target at beyond ⊢
    have far : 2 ^ 64 ≤ target := Int.not_lt.mp beyond
    rw [if_neg (by omega), if_pos (.inr far)]
    intro same
    cases same

/-- A run gives what the content gives exactly as long as its seeks stay within reach. -/
theorem CachedRangeReader.Caches.run_eq_iff (caches : reader.Caches) (operations : List Operation) :
    reader.run operations = reader.cursor.run operations ↔
      WithinReach reader.cursor operations := by
  induction operations generalizing reader with
  | nil => exact ⟨fun _ => trivial, fun _ => rfl⟩
  | cons operation operations inductionHypothesis =>
    rw [CachedRangeReader.run, Cursor.run, WithinReach]
    constructor
    · intro same
      have first := (Prod.mk.inj (cons.inj same).1).1
      by_cases within : operation.Within reader.cursor
      · obtain ⟨_, stepped⟩ := caches.agrees within
        have rest := (cons.inj same).2
        rw [← stepped] at rest ⊢
        exact ⟨within, (inductionHypothesis (caches.step operation)).mp rest⟩
      · exact absurd first (caches.differs within)
    · rintro ⟨within, rest⟩
      obtain ⟨answered, stepped⟩ := caches.agrees within
      rw [← stepped] at rest ⊢
      rw [answered, (inductionHypothesis (caches.step operation)).mpr rest]
      rfl

/-- The eviction queue holds each cached key once, and no more of them than the capacity. -/
structure CachedRangeReader.QueueHolds (capacity : Nat) (reader : CachedRangeReader) : Prop where
  distinct : reader.order.Nodup
  keys : reader.order.Perm (reader.chunks.map Prod.fst)
  bounded : reader.order.length ≤ capacity

/-- The reader is a plain file, with a consistent queue in every state it reaches, exactly as long
as its seeks stay below `2 ^ 64`. -/
theorem plain_file_iff (src : RangedSource) (chunkSize maxChunks : Nat) (sized : 0 < chunkSize)
    (capacity : 0 < maxChunks) (operations : List Operation) :
    ((CachedRangeReader.new src chunkSize maxChunks sized capacity).run operations =
          (⟨src.content, 0⟩ : Cursor).run operations ∧
        ∀ front, front <+: operations →
          ((CachedRangeReader.new src chunkSize maxChunks sized capacity).after
            front).QueueHolds maxChunks) ↔
      WithinReach ⟨src.content, 0⟩ operations := by
  have caches := CachedRangeReader.caches_new src sized capacity
  have run := caches.run_eq_iff operations
  constructor
  · rintro ⟨same, _⟩
    exact run.mp same
  · intro within
    refine ⟨run.mpr within, fun front _ => ?_⟩
    obtain ⟨reached, sameCapacity⟩ := caches.after front
    exact ⟨reached.distinct, reached.keys, Nat.le_trans reached.bounded (Nat.le_of_eq sameCapacity)⟩

/-- A source that serves all it is asked for. -/
def eager (content : List UInt8) (fits : content.length < 2 ^ 64) : RangedSource where
  content := content
  serve _ _ room := room
  fits := fits
  least _ _ _ asked _ := asked
  most _ _ _ := Nat.le_refl _

theorem plain_file_iff_sample :
    ((CachedRangeReader.new (eager [1, 2, 3] (by decide)) 2 1 (by decide) (by decide)).run
            [.read 3, .seek (.fromEnd (-2)), .read 9] =
          (⟨[1, 2, 3], 0⟩ : Cursor).run [.read 3, .seek (.fromEnd (-2)), .read 9] ∧
        ∀ front, front <+: [.read 3, .seek (.fromEnd (-2)), .read 9] →
          ((CachedRangeReader.new (eager [1, 2, 3] (by decide)) 2 1 (by decide) (by decide)).after
            front).QueueHolds 1) ↔
      WithinReach ⟨[1, 2, 3], 0⟩ [.read 3, .seek (.fromEnd (-2)), .read 9] :=
  plain_file_iff (eager [1, 2, 3] (by decide)) 2 1 (by decide) (by decide)
    [.read 3, .seek (.fromEnd (-2)), .read 9]

/-- One past the last position of 64 bits, the reader is at the start of the content again. -/
theorem wrapped_seek :
    ¬ ((CachedRangeReader.new (eager [7] (by decide)) 2 1 (by decide) (by decide)).run
            [.seek (.start 0xffffffffffffffff), .seek (.current 1), .read 1] =
          (⟨[7], 0⟩ : Cursor).run
            [.seek (.start 0xffffffffffffffff), .seek (.current 1), .read 1] ∧
        ∀ front, front <+: [.seek (.start 0xffffffffffffffff), .seek (.current 1), .read 1] →
          ((CachedRangeReader.new (eager [7] (by decide)) 2 1 (by decide) (by decide)).after
            front).QueueHolds 1) := by
  rintro ⟨same, _⟩
  have second := congrArg (fun answers => answers[1]?) same
  revert second
  decide

end Oryxis.Archive.Ranged

/-
This file is reading bytes from front to back: a position in them, readers that move it and may
fail, and two notions for proving with readers. `Reads` says that a reader consumes exactly these
bytes and gives this value, whatever stands before and with this behind; `Sound` says what holds
after a reader on any bytes: they are the same, the position moved forward and stays inside them,
what was logged is good, and a value that was read is related to the number of bytes it took. Both
compose along the binds of a reader and along its repetition.
-/

import Mathlib.Data.List.Induction
import Mathlib.Algebra.Ring.Nat
import Mathlib.Algebra.BigOperators.Group.List.Basic

namespace Oryxis.Library

open List

/-! ### Readers -/

/-- A position in bytes, and what readers noted on the way. -/
structure Cursor (Note : Type) where
  bytes : List UInt8
  pos : Nat
  notes : List Note

def Reader (Note Failure Value : Type) : Type :=
  Cursor Note → Except Failure Value × Cursor Note

namespace Reader

variable {Note Failure Value Result : Type}

/-- The first reader, and then the one its value asks for. -/
def andThen (reader : Reader Note Failure Value) (next : Value → Reader Note Failure Result) :
    Reader Note Failure Result := fun cursor =>
  match reader cursor with
  | (.error failure, after) => (.error failure, after)
  | (.ok value, after) => next value after

def succeed (value : Value) : Reader Note Failure Value := fun cursor => (.ok value, cursor)

instance : Monad (Reader Note Failure) where
  pure := succeed
  bind := andThen

def fail (failure : Failure) : Reader Note Failure Value := fun cursor => (.error failure, cursor)

def byte (short : Failure) : Reader Note Failure UInt8 := fun cursor =>
  match cursor.bytes[cursor.pos]? with
  | some next => (.ok next, { cursor with pos := cursor.pos + 1 })
  | none => (.error short, cursor)

/-- The next bytes, as many as asked for. -/
def take (count : Nat) (short : Failure) : Reader Note Failure (List UInt8) := fun cursor =>
  if cursor.pos + count ≤ cursor.bytes.length then
    (.ok ((cursor.bytes.drop cursor.pos).take count), { cursor with pos := cursor.pos + count })
  else (.error short, cursor)

/-- How many bytes are left. -/
def remaining : Reader Note Failure Nat := fun cursor =>
  (.ok (cursor.bytes.length - cursor.pos), cursor)

def write (entry : Note) : Reader Note Failure Unit := fun cursor =>
  (.ok (), { cursor with notes := cursor.notes ++ [entry] })

/-- A reader time after time. -/
def times : Nat → Reader Note Failure Value → Reader Note Failure (List Value)
  | 0, _ => pure []
  | count + 1, reader => do
    let first ← reader
    let rest ← times count reader
    pure (first :: rest)

end Reader

/-! ### Reading what was written -/

section Reads

variable {Note Failure Value Result : Type}

/-- A reader consumes these bytes, with the others behind them, and gives the value. -/
def Reads (reader : Reader Note Failure Value) (consumed rest : List UInt8) (read : Value) : Prop :=
  ∀ (front : List UInt8) (notes : List Note), ∃ later,
    reader ⟨front ++ (consumed ++ rest), front.length, notes⟩
      = (.ok read, ⟨front ++ (consumed ++ rest), front.length + consumed.length, later⟩)

theorem reads_pure (read : Value) (rest : List UInt8) :
    Reads (pure read : Reader Note Failure Value) [] rest read :=
  fun _ notes => ⟨notes, rfl⟩

variable {reader : Reader Note Failure Value} {next : Value → Reader Note Failure Result}
  {rest : List UInt8} {read : Value} {final : Result}

theorem Reads.bind {first second : List UInt8} (before : Reads reader first (second ++ rest) read)
    (after : Reads (next read) second rest final) :
    Reads (reader >>= next) (first ++ second) rest final := by
  intro front notes
  obtain ⟨between, ran⟩ := before front notes
  obtain ⟨later, finished⟩ := after (front ++ first) between
  refine ⟨later, ?_⟩
  have whole : front ++ first ++ (second ++ rest) = front ++ (first ++ second ++ rest) := by
    rw [append_assoc, append_assoc]
  rw [whole, length_append] at finished
  rw [← append_assoc, whole] at ran
  show Reader.andThen reader next _ = _
  rw [Reader.andThen, ran]
  dsimp only
  rw [finished, length_append, Nat.add_assoc]

/-- A reader that consumes nothing before the others. -/
theorem Reads.bind_nil {consumed : List UInt8} (before : Reads reader [] (consumed ++ rest) read)
    (after : Reads (next read) consumed rest final) :
    Reads (reader >>= next) consumed rest final := by
  have both : Reads (reader >>= next) ([] ++ consumed) rest final := before.bind after
  exact both

/-- A reader with nothing consumed behind it. -/
theorem Reads.bind_last {consumed : List UInt8} (before : Reads reader consumed rest read)
    (after : Reads (next read) [] rest final) : Reads (reader >>= next) consumed rest final := by
  have both : Reads (reader >>= next) (consumed ++ []) rest final := Reads.bind before after
  rw [append_nil] at both
  exact both

theorem reads_byte (next : UInt8) (rest : List UInt8) (short : Failure) :
    Reads (Reader.byte short : Reader Note Failure _) [next] rest next := by
  intro front notes
  refine ⟨notes, ?_⟩
  have there : (front ++ ([next] ++ rest))[front.length]? = some next := by
    rw [getElem?_append_right (Nat.le_refl _), Nat.sub_self]
    rfl
  rw [Reader.byte]
  dsimp only
  rw [there]
  rfl

theorem reads_take (consumed rest : List UInt8) (short : Failure) :
    Reads (Reader.take consumed.length short : Reader Note Failure _) consumed rest consumed := by
  intro front notes
  refine ⟨notes, ?_⟩
  have inside : front.length + consumed.length ≤ (front ++ (consumed ++ rest)).length := by
    rw [length_append, length_append]
    omega
  rw [Reader.take, if_pos inside]
  dsimp only
  rw [drop_left, take_left]

theorem reads_remaining (rest : List UInt8) :
    Reads (Reader.remaining : Reader Note Failure _) [] rest rest.length := by
  intro front notes
  refine ⟨notes, ?_⟩
  rw [Reader.remaining]
  dsimp only
  rw [length_append, Nat.add_sub_cancel_left]
  rfl

theorem reads_write (entry : Note) (rest : List UInt8) :
    Reads (Reader.write entry : Reader Note Failure _) [] rest () :=
  fun _ notes => ⟨notes ++ [entry], rfl⟩

/-- A reader that reads every value from its bytes reads the values one after the other. -/
theorem reads_times {encode : Value → List UInt8} {values : List Value}
    (each : ∀ value ∈ values, ∀ rest, Reads reader (encode value) rest value) (rest : List UInt8) :
    Reads (Reader.times values.length reader) (values.flatMap encode) rest values := by
  induction values with
  | nil => exact reads_pure [] rest
  | cons value values ih =>
    rw [length_cons, Reader.times, flatMap_cons]
    refine (each value mem_cons_self _).bind ?_
    exact (ih fun other among => each other (mem_cons_of_mem _ among)).bind_last
      (reads_pure _ _)

end Reads

/-! ### Reading anything -/

section Sound

variable {Note Failure Value Result : Type} {good : Note → Prop} {left : Nat}

/-- What holds after a reader, on any bytes and from any position inside them with so many left;
a value that was read is related to the number of bytes it took. -/
def Sound (good : Note → Prop) (left : Nat) (reader : Reader Note Failure Value)
    (took : Value → Nat → Prop) : Prop :=
  ∀ cursor : Cursor Note, cursor.pos + left = cursor.bytes.length →
    (∀ entry ∈ cursor.notes, good entry) → ∃ used ≤ left,
      (reader cursor).2.bytes = cursor.bytes ∧ (reader cursor).2.pos = cursor.pos + used ∧
        (∀ entry ∈ (reader cursor).2.notes, good entry) ∧
        ∀ read, (reader cursor).1 = .ok read → took read used

theorem sound_pure {took : Value → Nat → Prop} {read : Value} (holds : took read 0) :
    Sound good left (pure read : Reader Note Failure Value) took := by
  intro cursor inside notes
  refine ⟨0, Nat.zero_le _, rfl, rfl, notes, ?_⟩
  rintro other same
  cases same
  exact holds

theorem sound_fail (failure : Failure) (took : Value → Nat → Prop) :
    Sound good left (Reader.fail failure : Reader Note Failure Value) took :=
  fun _ _ notes => ⟨0, Nat.zero_le _, rfl, rfl, notes, fun _ same => nomatch same⟩

variable {reader : Reader Note Failure Value}

theorem Sound.weaken {took weaker : Value → Nat → Prop} (sound : Sound good left reader took)
    (weakens : ∀ read used, used ≤ left → took read used → weaker read used) :
    Sound good left reader weaker := by
  intro cursor inside notes
  obtain ⟨used, enough, same, moved, kept, related⟩ := sound cursor inside notes
  exact ⟨used, enough, same, moved, kept, fun read ok => weakens read used enough (related read ok)⟩

theorem Sound.bind {next : Value → Reader Note Failure Result} {first : Value → Nat → Prop}
    {took : Result → Nat → Prop} (before : Sound good left reader first)
    (after : ∀ read used, used ≤ left → first read used →
      Sound good (left - used) (next read) fun final more => took final (used + more)) :
    Sound good left (reader >>= next) took := by
  intro cursor inside notes
  obtain ⟨used, enough, same, moved, kept, related⟩ := before cursor inside notes
  have unfolded : (reader >>= next) cursor = Reader.andThen reader next cursor := rfl
  rw [unfolded, Reader.andThen]
  cases ran : reader cursor with
  | mk outcome between =>
    rw [ran] at same moved kept related
    dsimp only at same moved kept related
    cases outcome with
    | error failure =>
      exact ⟨used, enough, same, moved, kept, fun _ impossible => by cases impossible⟩
    | ok read =>
      have still : between.pos + (left - used) = between.bytes.length := by
        rw [same, moved]
        omega
      obtain ⟨more, room, same', moved', kept', related'⟩ :=
        after read used enough (related read rfl) between still kept
      refine ⟨used + more, by omega, same'.trans same, ?_, kept', related'⟩
      rw [moved', moved, Nat.add_assoc]

theorem sound_byte (short : Failure) :
    Sound good left (Reader.byte short : Reader Note Failure _) fun _ used => used = 1 := by
  intro cursor inside notes
  rw [Reader.byte]
  cases there : cursor.bytes[cursor.pos]? with
  | none => exact ⟨0, Nat.zero_le _, rfl, rfl, notes, fun _ same => by cases same⟩
  | some next =>
    obtain ⟨before, -⟩ := List.getElem?_eq_some_iff.mp there
    exact ⟨1, by omega, rfl, rfl, notes, fun _ _ => rfl⟩

theorem sound_take (count : Nat) (short : Failure) :
    Sound good left (Reader.take count short : Reader Note Failure _)
      fun read used => read.length = count ∧ used = count := by
  intro cursor inside notes
  rw [Reader.take]
  by_cases enough : cursor.pos + count ≤ cursor.bytes.length
  · rw [if_pos enough]
    refine ⟨count, by omega, rfl, rfl, notes, ?_⟩
    rintro read same
    cases same
    refine ⟨?_, rfl⟩
    rw [length_take, length_drop]
    omega
  · rw [if_neg enough]
    exact ⟨0, Nat.zero_le _, rfl, rfl, notes, fun _ same => by cases same⟩

theorem sound_remaining :
    Sound good left (Reader.remaining : Reader Note Failure _)
      fun read used => read = left ∧ used = 0 := by
  intro cursor inside notes
  refine ⟨0, Nat.zero_le _, rfl, rfl, notes, ?_⟩
  rintro read same
  cases same
  exact ⟨by omega, rfl⟩

theorem sound_write {entry : Note} (fine : good entry) :
    Sound good left (Reader.write entry : Reader Note Failure Unit) fun _ used => used = 0 := by
  intro cursor inside notes
  refine ⟨0, Nat.zero_le _, rfl, rfl, ?_, fun _ _ => rfl⟩
  intro other among
  obtain before | rfl := (mem_append.mp among).imp_right mem_singleton.mp
  · exact notes other before
  · exact fine

/-- Values that each take at least their size take together at least the sum. -/
theorem sound_times (size : Value → Nat)
    (each : ∀ left, Sound good left reader fun read used => size read ≤ used) (count : Nat) :
    ∀ left, Sound good left (Reader.times count reader)
      fun read used => read.length = count ∧ (read.map size).sum ≤ used := by
  induction count with
  | zero => exact fun _ => sound_pure ⟨rfl, Nat.le_refl _⟩
  | succ count ih =>
    intro left
    rw [Reader.times]
    refine (each left).bind fun first used _ enough => (ih _).bind
      fun rest more _ ⟨length, sizes⟩ => sound_pure ⟨by rw [length_cons, length], ?_⟩
    rw [map_cons, sum_cons]
    omega

end Sound

/-! ### Big-endian numbers -/

def fromBe (bytes : List UInt8) : Nat :=
  bytes.foldl (fun number byte => number * 256 + byte.toNat) 0

/-- The last bytes of a number, the most significant one first. -/
def toBe : Nat → Nat → List UInt8
  | 0, _ => []
  | width + 1, number => toBe width (number / 256) ++ [UInt8.ofNat number]

theorem length_toBe (width number : Nat) : (toBe width number).length = width := by
  induction width generalizing number with
  | zero => rfl
  | succ width ih => rw [toBe, length_append, ih, length_singleton]

theorem fromBe_append_singleton (bytes : List UInt8) (last : UInt8) :
    fromBe (bytes ++ [last]) = fromBe bytes * 256 + last.toNat := by
  rw [fromBe, foldl_append]
  rfl

theorem fromBe_toBe {width number : Nat} (fits : number < 256 ^ width) :
    fromBe (toBe width number) = number := by
  induction width generalizing number with
  | zero => exact (Nat.lt_one_iff.mp fits).symm
  | succ width ih =>
    have shorter : number / 256 < 256 ^ width := Nat.div_lt_of_lt_mul (by
      rw [Nat.mul_comm, ← Nat.pow_succ]
      exact fits)
    rw [toBe, fromBe_append_singleton, ih shorter, UInt8.toNat_ofNat']
    omega

theorem fromBe_lt (bytes : List UInt8) : fromBe bytes < 256 ^ bytes.length := by
  induction bytes using List.reverseRecOn with
  | nil => exact Nat.one_pos
  | append_singleton bytes last ih =>
    rw [fromBe_append_singleton, length_append, length_singleton, Nat.pow_succ]
    have small := last.toNat_lt
    omega

end Oryxis.Library

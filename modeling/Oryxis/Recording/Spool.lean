/-
This file is where the rows of a recording go while its vault is locked: one file for each
recording, a frame for each row, and the drain that reads the files back and removes them.

A drain returns what the appends took. What an append that fails leaves behind is a frame cut
short, and the reader stops there, so a row appended behind it would not come back. The flush
does not let it come to that: it does not ask a spool again that could not take a batch, and a
recording takes no row after its end.
-/

import Oryxis.Library.Frames

namespace Oryxis.SessionSpool

open Library List

abbrev Bytes := List UInt8

/-! ### Rows -/

inductive PendingSessionRow
  | chunk (offset : Option (BitVec 64)) (bytes : Bytes)
  | resize (ms : BitVec 64) (cols rows : BitVec 16)
  | finish
  deriving DecidableEq, Repr

def kindChunk : UInt8 := 0

def kindResize : UInt8 := 1

def kindEnd : UInt8 := 2

def encodeRow : PendingSessionRow → Bytes
  | .chunk (some ms) bytes =>
    kindChunk :: 1 :: (toBe 8 ms.toNat ++ (toBe 4 bytes.length ++ bytes))
  | .chunk none bytes => kindChunk :: 0 :: (toBe 8 0 ++ (toBe 4 bytes.length ++ bytes))
  | .resize ms cols rows =>
    kindResize :: (toBe 8 ms.toNat ++ (toBe 2 cols.toNat ++ toBe 2 rows.toNat))
  | .finish => [kindEnd]

/-- `split_first_chunk`, with the number its bytes are. -/
def splitNumber (width : Nat) (bytes : Bytes) : Option (Nat × Bytes) :=
  if bytes.length < width then none else some (fromBe (bytes.take width), bytes.drop width)

def decodeRow : Bytes → Option PendingSessionRow
  | [] => none
  | kind :: rest =>
    if kind = kindChunk then
      match rest with
      | [] => none
      | hasOffset :: rest =>
        (splitNumber 8 rest).bind fun (ms, rest) =>
          (splitNumber 4 rest).bind fun (length, rest) =>
            if rest.length < length then none
            else
              let offset := if hasOffset = 1 then some (BitVec.ofNat 64 ms) else none
              some (.chunk offset (rest.take length))
    else if kind = kindResize then
      (splitNumber 8 rest).bind fun (ms, rest) =>
        (splitNumber 2 rest).bind fun (cols, rest) =>
          (splitNumber 2 rest).map fun (rows, _) =>
            .resize (BitVec.ofNat 64 ms) (BitVec.ofNat 16 cols) (BitVec.ofNat 16 rows)
    else if kind = kindEnd then some .finish
    else none

/-- A row whose length fits the field it is written in. -/
def PendingSessionRow.Fits : PendingSessionRow → Prop
  | .chunk _ bytes => bytes.length < 2 ^ 32
  | _ => True

instance (row : PendingSessionRow) : Decidable row.Fits :=
  match row with
  | .chunk _ bytes => inferInstanceAs (Decidable (bytes.length < 2 ^ 32))
  | .resize _ _ _ => .isTrue trivial
  | .finish => .isTrue trivial

theorem splitNumber_toBe {width number : Nat} (fits : number < 256 ^ width) (rest : Bytes) :
    splitNumber width (toBe width number ++ rest) = some (number, rest) := by
  rw [splitNumber, if_neg (by rw [length_append, length_toBe]; omega),
    take_left' (length_toBe _ _), drop_left' (length_toBe _ _), fromBe_toBe fits]

theorem decodeRow_encodeRow {row : PendingSessionRow} (fits : row.Fits) :
    decodeRow (encodeRow row) = some row := by
  cases row with
  | finish => rfl
  | resize ms cols rows =>
    have time : ms.toNat < 256 ^ 8 := ms.isLt
    have width : cols.toNat < 256 ^ 2 := cols.isLt
    have last := splitNumber_toBe (show rows.toNat < 256 ^ 2 from rows.isLt) []
    rw [append_nil] at last
    have other : ¬kindResize = kindChunk := by decide
    simp only [encodeRow, decodeRow, if_neg other, if_true, splitNumber_toBe time,
      Option.bind_some, splitNumber_toBe width, last, Option.map_some, BitVec.ofNat_toNat,
      BitVec.setWidth_eq]
  | chunk offset bytes =>
    have size := splitNumber_toBe (show bytes.length < 256 ^ 4 from fits) bytes
    cases offset with
    | none =>
      rw [encodeRow, decodeRow, if_pos rfl]
      simp only [splitNumber_toBe (show 0 < 256 ^ 8 by decide), Option.bind_some, size,
        Nat.lt_irrefl, if_false, take_length]
      rfl
    | some ms =>
      have time : ms.toNat < 256 ^ 8 := ms.isLt
      rw [encodeRow, decodeRow, if_pos rfl]
      simp only [splitNumber_toBe time, Option.bind_some, size, Nat.lt_irrefl, if_false, if_true,
        take_length, BitVec.ofNat_toNat, BitVec.setWidth_eq]

/-! ### The spool -/

/-- The key rows are sealed under; a seal has the number of the draw of its nonce. -/
structure EphemeralKey where
  sealRow : Nat → Bytes → Option Bytes
  openBlob : Bytes → Option Bytes
  opens : ∀ draw plain blob, sealRow draw plain = some blob → openBlob blob = some plain

variable {LogId : Type}

/-- The files of the spool's folder. -/
abbrev Folder (LogId : Type) := LogId → Option Bytes

/-- How the writing of a batch goes: all of it, the file cannot be opened, or it fails behind some
of the bytes. -/
inductive Fate
  | written
  | refused
  | cut (bytes : Nat)
  deriving DecidableEq, Repr

structure Call (LogId : Type) where
  log : LogId
  rows : List PendingSessionRow
  draw : Nat
  fate : Fate

def sealRows (key : EphemeralKey) : Nat → List PendingSessionRow → Option (List Bytes)
  | _, [] => some []
  | draw, row :: rows =>
    (key.sealRow draw (encodeRow row)).bind fun blob =>
      (sealRows key (draw + 1) rows).map (blob :: ·)

def Folder.write [DecidableEq LogId] (folder : Folder LogId) (log : LogId) (bytes : Bytes) :
    Folder LogId :=
  Function.update folder log (some ((folder log).getD [] ++ bytes))

/-- One append, and whether it answers that all went well. -/
def append [DecidableEq LogId] (key : EphemeralKey) (folder : Folder LogId)
    (call : Call LogId) : Folder LogId × Bool :=
  if call.rows.isEmpty then (folder, true)
  else
    match sealRows key call.draw call.rows with
    | none => (folder, false)
    | some blobs =>
      let out := blobs.flatMap frame
      match call.fate with
      | .refused => (folder, false)
      | .cut bytes => (folder.write call.log (out.take bytes), false)
      | .written => (folder.write call.log out, true)

def appendAll [DecidableEq LogId] (key : EphemeralKey) (folder : Folder LogId)
    (calls : List (Call LogId)) : Folder LogId :=
  calls.foldl (fun folder call => (append key folder call).1) folder

def decodeAll (key : EphemeralKey) (data : Bytes) : List PendingSessionRow :=
  readFrames (fun blob => (key.openBlob blob).bind decodeRow) data

/-- The rows of one file. A file without rows is passed over. -/
def drainFile (key : EphemeralKey) (folder : Folder LogId) (log : LogId) :
    Option (LogId × List PendingSessionRow) :=
  (folder log).bind fun data =>
    let rows := decodeAll key data
    if rows.isEmpty then none else some (log, rows)

/-- The rows of the files in the order the folder lists them, and the folder without them. -/
def drainAll [DecidableEq LogId] (key : EphemeralKey) (listing : List LogId)
    (folder : Folder LogId) :
    List (LogId × List PendingSessionRow) × Folder LogId :=
  (listing.filterMap (drainFile key folder),
    fun log => if log ∈ listing then none else folder log)

/-- A listing has each file of a folder once. -/
structure Lists (listing : List LogId) (folder : Folder LogId) : Prop where
  nodup : listing.Nodup
  mem : ∀ log, log ∈ listing ↔ (folder log).isSome

/-! ### What a drain returns -/

def Call.succeeds (key : EphemeralKey) (call : Call LogId) : Bool :=
  call.rows.isEmpty || ((sealRows key call.draw call.rows).isSome && call.fate = .written)

/-- The rows of the successful appends to a log with a leading part of the rows of each failed
one, in order. -/
inductive Took (key : EphemeralKey) (log : LogId) :
    List (Call LogId) → List PendingSessionRow → Prop
  | nil : Took key log [] []
  | other {call : Call LogId} {calls : List (Call LogId)} {rows : List PendingSessionRow}
      (elsewhere : call.log ≠ log) (later : Took key log calls rows) :
      Took key log (call :: calls) rows
  | succeeded {call : Call LogId} {calls : List (Call LogId)} {rows : List PendingSessionRow}
      (here : call.log = log) (success : call.succeeds key) (later : Took key log calls rows) :
      Took key log (call :: calls) (call.rows ++ rows)
  | failed {call : Call LogId} {calls : List (Call LogId)} {lead rows : List PendingSessionRow}
      (here : call.log = log) (failure : ¬call.succeeds key) (leads : lead <+: call.rows)
      (later : Took key log calls rows) :
      Took key log (call :: calls) (lead ++ rows)

/-- The rows a drain returns for a log. -/
def returned [DecidableEq LogId] (log : LogId)
    (drained : List (LogId × List PendingSessionRow)) : List PendingSessionRow :=
  (drained.filter fun entry => entry.1 = log).flatMap Prod.snd

/-- The bytes an append writes. -/
def Call.bytes (key : EphemeralKey) (call : Call LogId) : Bytes :=
  match sealRows key call.draw call.rows, call.fate with
  | some blobs, .written => blobs.flatMap frame
  | some blobs, .cut bytes => (blobs.flatMap frame).take bytes
  | _, _ => []

/-- What an append leaves behind its last whole frame. -/
def Call.torn (key : EphemeralKey) (call : Call LogId) : Bytes :=
  match sealRows key call.draw call.rows, call.fate with
  | some blobs, .cut bytes => tornBytes blobs bytes
  | _, _ => []

/-- Nothing is written behind a torn frame. -/
def Untorn (key : EphemeralKey) (calls : List (Call LogId)) : Prop :=
  calls.Pairwise fun earlier later =>
    earlier.torn key ≠ [] → later.log = earlier.log → later.bytes key = []

instance [DecidableEq LogId] (key : EphemeralKey) (calls : List (Call LogId)) :
    Decidable (Untorn key calls) :=
  inferInstanceAs (Decidable (calls.Pairwise _))

/-- The rows of a call and their seals fit their length fields. -/
structure Call.Fits (key : EphemeralKey) (call : Call LogId) : Prop where
  rows : ∀ row ∈ call.rows, row.Fits
  blobs : ∀ blobs ∈ sealRows key call.draw call.rows, ∀ blob ∈ blobs, blob.length < 2 ^ 32

/-! ### One file -/

variable {key : EphemeralKey}

theorem decodeAll_nil : decodeAll key [] = [] := by
  rw [decodeAll, readFrames]
  rfl

variable {rows : List PendingSessionRow}

theorem map_decode_sealRows {draw : Nat} {blobs : List Bytes} (fits : ∀ row ∈ rows, row.Fits)
    (sealed : sealRows key draw rows = some blobs) :
    (blobs.map fun blob => (key.openBlob blob).bind decodeRow) = rows.map some := by
  induction rows generalizing draw blobs with
  | nil =>
    cases sealed
    rfl
  | cons row rows inductionHypothesis =>
    obtain ⟨fitsFirst, fitsOthers⟩ := forall_mem_cons.mp fits
    obtain ⟨blob, first, rest⟩ := Option.bind_eq_some_iff.mp sealed
    obtain ⟨others, sealedOthers, rfl⟩ := Option.map_eq_some_iff.mp rest
    rw [map_cons, inductionHypothesis fitsOthers sealedOthers, key.opens _ _ _ first,
      Option.bind_some, decodeRow_encodeRow fitsFirst, map_cons]

variable {call : Call LogId}

/-- A call's bytes in a file give a leading part of its rows, all of them when it succeeds, and
then its torn frame follows. -/
theorem Call.decodeAll_bytes_append (fits : call.Fits key) :
    ∃ lead, lead <+: call.rows ∧ (call.succeeds key → lead = call.rows ∧ call.torn key = []) ∧
      ∀ rest, decodeAll key (call.bytes key ++ rest) =
        lead ++ decodeAll key (call.torn key ++ rest) := by
  obtain ⟨log, rows, draw, fate⟩ := call
  cases sealed : sealRows key draw rows with
  | none =>
    refine ⟨[], nil_prefix, fun success => ?_, fun rest => ?_⟩
    · rw [succeeds, sealed, Option.isSome_none, Bool.false_and, Bool.or_false] at success
      rw [torn, sealed]
      exact ⟨(List.isEmpty_iff.mp success).symm, rfl⟩
    · rw [bytes, torn, sealed]
      rfl
  | some blobs =>
    have sizes := fits.blobs blobs sealed
    have decodes := map_decode_sealRows fits.rows sealed
    cases fate with
    | written =>
      refine ⟨rows, prefix_refl _, fun _ => ?_, fun rest => ?_⟩
      · rw [torn, sealed]
        exact ⟨rfl, rfl⟩
      · rw [bytes, torn, sealed]
        exact readFrames_flatMap_append sizes decodes rest
    | refused =>
      refine ⟨[], nil_prefix, fun success => ?_, fun rest => ?_⟩
      · rw [succeeds, sealed] at success
        rw [torn, sealed]
        exact ⟨(List.isEmpty_iff.mp (by simpa using success)).symm, rfl⟩
      · rw [bytes, torn, sealed]
        rfl
    | cut count =>
      have front := prefix_iff_eq_take.mp (wholeFrames_isPrefix blobs count)
      have decodesFront := congrArg (List.take (wholeFrames blobs count).length) decodes
      rw [← map_take, ← front, ← map_take] at decodesFront
      refine ⟨rows.take (wholeFrames blobs count).length, take_prefix _ _, fun success => ?_,
        fun rest => ?_⟩
      · rw [succeeds, sealed] at success
        have empty : rows = [] := List.isEmpty_iff.mp (by simpa using success)
        subst empty
        cases sealed
        exact ⟨take_nil, by rw [torn, sealRows]; rfl⟩
      · rw [bytes, torn, sealed]
        show decodeAll key ((blobs.flatMap frame).take count ++ rest) = _
        rw [take_flatMap_frame, append_assoc]
        exact readFrames_flatMap_append
          (fun blob member => sizes blob ((wholeFrames_isPrefix blobs count).subset member))
          decodesFront _

theorem Call.decodeAll_torn (fits : call.Fits key) :
    decodeAll key (call.torn key) = [] := by
  obtain ⟨log, rows, draw, fate⟩ := call
  rw [torn]
  split
  · rename_i blobs count sealed _
    exact readFrames_tornBytes (fits.blobs blobs sealed) count
  · exact decodeAll_nil

/-- A call that succeeds and writes nothing has no rows. -/
theorem Call.rows_eq_nil (success : call.succeeds key) (silent : call.bytes key = []) :
    call.rows = [] := by
  obtain ⟨log, rows, draw, fate⟩ := call
  rw [succeeds, Bool.or_eq_true, Bool.and_eq_true, decide_eq_true_eq] at success
  rcases success with empty | ⟨whole, written⟩
  · exact List.isEmpty_iff.mp empty
  · obtain ⟨blobs, sealed⟩ := Option.isSome_iff_exists.mp whole
    cases rows with
    | nil => rfl
    | cons row rows =>
      obtain ⟨blob, first, rest⟩ := Option.bind_eq_some_iff.mp sealed
      obtain ⟨others, _, rfl⟩ := Option.map_eq_some_iff.mp rest
      have written' : fate = .written := written
      subst written'
      rw [bytes, sealed] at silent
      exact absurd (append_eq_nil_iff.mp silent).1 (frame_ne_nil blob)

section Files

variable [DecidableEq LogId]

/-- The bytes of the calls to one log. -/
def content (key : EphemeralKey) (log : LogId) (calls : List (Call LogId)) : Bytes :=
  calls.flatMap fun call => if call.log = log then call.bytes key else []

variable (folder : Folder LogId)

theorem write_getD (log other : LogId) (bytes : Bytes) :
    ((folder.write log bytes) other).getD [] =
      (folder other).getD [] ++ if log = other then bytes else [] := by
  rw [Folder.write]
  by_cases here : log = other
  · subst here
    rw [Function.update_self, if_pos rfl]
    rfl
  · rw [Function.update_of_ne (Ne.symm here), if_neg here, append_nil]

theorem append_getD (call : Call LogId) (log : LogId) :
    ((append key folder call).1 log).getD [] =
      (folder log).getD [] ++ if call.log = log then call.bytes key else [] := by
  have silent (none : call.bytes key = []) :
      (folder log).getD [] = (folder log).getD [] ++ if call.log = log then call.bytes key else [] := by
    rw [none, ite_self, append_nil]
  obtain ⟨target, rows, draw, fate⟩ := call
  rw [append]
  by_cases empty : rows.isEmpty
  · rw [if_pos empty]
    refine silent ?_
    have none : rows = [] := List.isEmpty_iff.mp empty
    subst none
    cases fate with
    | written => rfl
    | refused => rfl
    | cut count => exact take_nil
  · rw [if_neg empty]
    cases sealed : sealRows key draw rows with
    | none => exact silent (by rw [Call.bytes, sealed])
    | some blobs =>
      cases fate with
      | refused => exact silent (by rw [Call.bytes, sealed])
      | written =>
        rw [Call.bytes, sealed]
        exact write_getD folder target log _
      | cut count =>
        rw [Call.bytes, sealed]
        exact write_getD folder target log _

theorem appendAll_getD (calls : List (Call LogId)) (log : LogId) :
    ((appendAll key folder calls) log).getD [] = (folder log).getD [] ++ content key log calls := by
  induction calls generalizing folder with
  | nil => exact (append_nil _).symm
  | cons call calls inductionHypothesis =>
    rw [appendAll, foldl_cons]
    exact (inductionHypothesis _).trans (by
      rw [append_getD, content, content, flatMap_cons, append_assoc])

variable {calls : List (Call LogId)}

variable {log : LogId}

theorem content_eq_nil (silent : ∀ call ∈ calls, call.log = log → call.bytes key = []) :
    content key log calls = [] := by
  refine flatMap_eq_nil_iff.mpr fun call member => ?_
  split_ifs with here
  · exact silent call member here
  · rfl

theorem took_nil (silent : ∀ call ∈ calls, call.log = log → call.bytes key = []) :
    Took key log calls [] := by
  induction calls with
  | nil => exact .nil
  | cons call calls inductionHypothesis =>
    obtain ⟨first, others⟩ := forall_mem_cons.mp silent
    have later := inductionHypothesis others
    by_cases here : call.log = log
    · by_cases success : call.succeeds key
      · have none := Took.succeeded here success later
        rwa [Call.rows_eq_nil success (first here)] at none
      · exact Took.failed here success nil_prefix later
    · exact .other here later

/-- What a file holds after some calls is read back as the rows of those that succeeded. -/
theorem took_decodeAll (untorn : Untorn key calls) (fits : ∀ call ∈ calls, call.Fits key)
    (log : LogId) :
    Took key log calls (decodeAll key (content key log calls)) := by
  induction calls with
  | nil =>
    rw [content, flatMap_nil, decodeAll_nil]
    exact .nil
  | cons call calls inductionHypothesis =>
    obtain ⟨behind, untornOthers⟩ := pairwise_cons.mp untorn
    obtain ⟨fitsFirst, fitsOthers⟩ := forall_mem_cons.mp fits
    have later := inductionHypothesis untornOthers fitsOthers
    rw [content, flatMap_cons]
    by_cases here : call.log = log
    · obtain ⟨lead, leads, all, read⟩ := Call.decodeAll_bytes_append fitsFirst
      rw [if_pos here, read]
      have tail : Took key log calls (decodeAll key (call.torn key ++ content key log calls)) := by
        by_cases whole : call.torn key = []
        · rw [whole]
          exact later
        · have silent : ∀ later ∈ calls, later.log = log → later.bytes key = [] :=
            fun other member same => behind other member whole (same.trans here.symm)
          rw [content_eq_nil silent, append_nil, Call.decodeAll_torn fitsFirst]
          exact took_nil silent
      by_cases success : call.succeeds key
      · rw [(all success).1]
        exact .succeeded here success tail
      · exact .failed here success leads tail
    · rw [if_neg here]
      exact .other here later

theorem returned_append (log : LogId) (first second : List (LogId × List PendingSessionRow)) :
    returned log (first ++ second) = returned log first ++ returned log second := by
  rw [returned, filter_append, flatMap_append]
  rfl

theorem returned_drainFile (first log : LogId) :
    returned log (drainFile key folder first).toList =
      if first = log then decodeAll key ((folder log).getD []) else [] := by
  rw [drainFile]
  cases file : folder first with
  | none =>
    split_ifs with same
    · subst same
      rw [file]
      exact decodeAll_nil.symm
    · rfl
  | some data =>
    rw [Option.bind_some]
    by_cases empty : (decodeAll key data).isEmpty
    · rw [if_pos empty]
      split_ifs with same
      · subst same
        rw [file]
        exact (List.isEmpty_iff.mp empty).symm
      · rfl
    · rw [if_neg empty, returned, Option.toList_some, filter_singleton]
      show List.flatMap Prod.snd (bif decide (first = log) then _ else _) = _
      by_cases same : first = log
      · rw [decide_eq_true same, if_pos same, ← same, file]
        exact append_nil _
      · rw [decide_eq_false same, if_neg same]
        rfl

theorem returned_drainAll (listing : List LogId) (nodup : listing.Nodup) (folder : Folder LogId)
    (log : LogId) :
    returned log (drainAll key listing folder).1 =
      if log ∈ listing then decodeAll key ((folder log).getD []) else [] := by
  rw [drainAll, filterMap_eq_flatMap_toList]
  induction listing with
  | nil => rfl
  | cons first listing inductionHypothesis =>
    obtain ⟨fresh, nodupOthers⟩ := nodup_cons.mp nodup
    rw [flatMap_cons, returned_append, inductionHypothesis nodupOthers, returned_drainFile]
    by_cases same : first = log
    · subst same
      rw [if_pos rfl, if_neg fresh, append_nil, if_pos mem_cons_self]
    · rw [if_neg same, nil_append]
      by_cases later : log ∈ listing
      · rw [if_pos later, if_pos (mem_cons_of_mem _ later)]
      · rw [if_neg later, if_neg fun listed =>
          later ((mem_cons.mp listed).resolve_left (Ne.symm same))]

/-- The next drain returns for each log the rows of all successful appends, in order and once
each, with a leading part of the rows of the failed ones at most, and leaves no file. -/
def Returns (key : EphemeralKey) (calls : List (Call LogId)) : Prop :=
  ∀ listing, Lists listing (appendAll key (fun _ => none) calls) →
    let drained := drainAll key listing (appendAll key (fun _ => none) calls)
    (∀ log, Took key log calls (returned log drained.1)) ∧ ∀ log, drained.2 log = none

variable {listing : List LogId}

/-- What a drain returns for a log is what the appends to it took. -/
theorem took_returned (untorn : Untorn key calls) (fits : ∀ call ∈ calls, call.Fits key)
    (lists : Lists listing (appendAll key (fun _ => none) calls)) (log : LogId) :
    Took key log calls
      (returned log (drainAll key listing (appendAll key (fun _ => none) calls)).1) := by
  have file :
      Took key log calls (decodeAll key ((appendAll key (fun _ => none) calls log).getD [])) := by
    rw [appendAll_getD]
    exact took_decodeAll untorn fits log
  rw [returned_drainAll listing lists.nodup]
  split_ifs with listed
  · exact file
  · have absent : appendAll key (fun _ => none) calls log = none :=
      Option.not_isSome_iff_eq_none.mp fun some => listed ((lists.mem log).mpr some)
    rwa [absent, Option.getD_none, decodeAll_nil] at file

/-- A drain removes every file of the folder it lists. -/
theorem drainAll_removes {folder : Folder LogId} (lists : Lists listing folder) (log : LogId) :
    (drainAll key listing folder).2 log = none := by
  show (if log ∈ listing then none else _) = none
  split_ifs with listed
  · rfl
  · exact Option.not_isSome_iff_eq_none.mp fun file => listed ((lists.mem log).mpr file)

/-- A drain returns what the appends took when nothing was written behind a torn frame. -/
theorem returns_of_untorn {calls : List (Call LogId)} (untorn : Untorn key calls)
    (fits : ∀ call ∈ calls, call.Fits key) : Returns key calls := fun _ lists =>
  ⟨fun log => took_returned untorn fits lists log, fun log => drainAll_removes lists log⟩

end Files

/-- A key whose seal is a mark in front of the bytes. -/
def markedKey : EphemeralKey where
  sealRow _ plain := some (0x5a :: plain)
  openBlob
    | mark :: plain => if mark = 0x5a then some plain else none
    | [] => none
  opens := by
    intro draw plain blob sealed
    cases sealed
    rfl

theorem returns_of_untorn_sample :
    Returns markedKey
      [(⟨0, [.resize 0 120 40, .chunk (some 12) [0x68, 0x69]], 0, .written⟩ : Call Nat),
        ⟨0, [.chunk none [0x21], .finish], 2, .cut 20⟩] := by
  refine returns_of_untorn (by decide +kernel)
    (forall_mem_cons.mpr ⟨⟨by decide, ?_⟩, forall_mem_singleton.mpr ⟨by decide, ?_⟩⟩)
  · intro blobs sealed
    cases sealed
    decide
  · intro blobs sealed
    cases sealed
    decide

/-- The rows of the calls to a log that succeeded. -/
def succeededRows [DecidableEq LogId] (key : EphemeralKey) (log : LogId)
    (calls : List (Call LogId)) : List PendingSessionRow :=
  (calls.filter fun call => call.log = log && call.succeeds key).flatMap Call.rows

theorem Took.sublist [DecidableEq LogId] {log : LogId} {calls : List (Call LogId)}
    (took : Took key log calls rows) :
    (succeededRows key log calls).Sublist rows := by
  induction took with
  | nil => exact Sublist.refl _
  | other elsewhere _ inductionHypothesis =>
    rw [succeededRows, filter_cons_of_neg (by simp [elsewhere])]
    exact inductionHypothesis
  | succeeded here success _ inductionHypothesis =>
    rw [succeededRows, filter_cons_of_pos (by simp [here, success]), flatMap_cons]
    exact Sublist.append (Sublist.refl _) inductionHypothesis
  | failed here failure _ _ inductionHypothesis =>
    rw [succeededRows, filter_cons_of_neg (by simp [here, failure])]
    exact inductionHypothesis.trans (sublist_append_right _ _)

/-- A row appended behind a torn frame does not come back. -/
theorem row_behind_torn_frame_lost :
    ¬∀ (key : EphemeralKey) (calls : List (Call Nat)), Returns key calls := by
  intro always
  have lists : Lists [0] (appendAll markedKey (fun _ => none)
      [(⟨0, [.finish], 0, .cut 2⟩ : Call Nat), ⟨0, [.finish], 1, .written⟩]) := by
    refine ⟨pairwise_singleton _ 0, fun log => ?_⟩
    by_cases here : log = 0
    · subst here
      decide +kernel
    · simp [here, appendAll, append, Folder.write, sealRows, markedKey, Function.update]
  have took := (always markedKey _ [0] lists).1 0
  exact absurd took.sublist (by decide +kernel)

end Oryxis.SessionSpool

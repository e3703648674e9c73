/-
This file is the loop that receives the files of a ZMODEM session, as far as it decides
what may be written to disk.

The other side picks how many files come, how long each is said to be and how much of it
really comes. The loop counts twice: what the file at hand has come to, which starts anew
with each file and where a part is resumed, and what the session has written so far. Every
write is checked against both before it is made, so neither the size a file was announced
with nor the room there was at the start is ever exceeded.
-/

import Oryxis.Zmodem.Names

namespace Oryxis.Zmodem

/-! ### Limits -/

/-- Sums of 64 bits do not wrap. -/
def saturatingAdd (first second : Nat) : Nat := min (first + second) (2 ^ 64 - 1)

/-- The most a file may come to that was announced without a size. -/
def maxUnannouncedDownload : Nat := 2 ^ 32 - 1

def ceiling (total : Option UInt64) : Nat :=
  match total with
  | some announced =>
    if 0 < announced.toNat then min announced.toNat maxUnannouncedDownload
    else maxUnannouncedDownload
  | none => maxUnannouncedDownload

/-- Room that is left free on the disk. -/
def zmodemDiskHeadroom : Nat := 256 * 1024 * 1024

/-- What a session may write where so much space is free; unknown, it is not bounded. -/
def sessionBudget (free : Option UInt64) : Option Nat :=
  free.map fun space => space.toNat - zmodemDiskHeadroom

/-! ### The loop -/

/-- Bytes that were written to a file, announced with this size, from this offset on. -/
structure Write where
  file : Nat
  announced : Option UInt64
  start : Nat
  bytes : List UInt8

inductive Ending where
  | completed
  | aborted
  | failed (error : String)

/-- An open part: which file it is, and where the next byte goes. -/
structure Dest where
  file : Nat
  cursor : Nat

/-- `files` counts the files begun, and `written` lists the writes, the last one first. -/
structure ReceiveLoop where
  transferred : Nat
  sessionWritten : Nat
  total : Option UInt64
  dest : Option Dest
  name : String
  files : Nat
  written : List Write
  finished : Bool
  ended : Option Ending

/-- What the receiver brings, with what comes of the files and the wire meanwhile. -/
inductive ReceiveStep where
  | writeWire
  /-- A write that fails has written this many bytes first. -/
  | writeFile (bytes : List UInt8) (fails : Option Nat) (counted : Except String Unit)
  | readFile
  /-- The part that was claimed, with the offset it is resumed at. -/
  | started (raw : String) (size : Option UInt64) (claimed : Except String UInt64)
      (accepted : Except String Unit)
  /-- The name the finished file has on disk, where there is one. -/
  | fileDone (finished : Except String (Option String))
  | completed
  | aborted
  | idle
  /-- The wire is lost, the other side is silent or the user has had enough. -/
  | stopped (ending : Ending)

namespace ReceiveLoop

def start : ReceiveLoop where
  transferred := 0
  sessionWritten := 0
  total := none
  dest := none
  name := ""
  files := 0
  written := []
  finished := false
  ended := none

def fail (loop : ReceiveLoop) (error : String) : ReceiveLoop :=
  { loop with ended := some (.failed error) }

/-- So many bytes go to the open part; data outside of one is absorbed. -/
def writeAll (loop : ReceiveLoop) (bytes : List UInt8) : ReceiveLoop :=
  match loop.dest with
  | some dest =>
    { loop with
      dest := some { dest with cursor := dest.cursor + bytes.length }
      written := ⟨dest.file, loop.total, dest.cursor, bytes⟩ :: loop.written }
  | none => loop

def writeFile (budget : Option Nat) (loop : ReceiveLoop) (bytes : List UInt8)
    (fails : Option Nat) (counted : Except String Unit) : ReceiveLoop :=
  let after := saturatingAdd loop.transferred bytes.length
  if ceiling loop.total < after then
    loop.fail s!"download exceeded its {ceiling loop.total}-byte ceiling; aborting"
  else
    let sessionAfter := saturatingAdd loop.sessionWritten bytes.length
    if budget.any (· < sessionAfter) then
      loop.fail s!"download exceeded its {budget.getD 0}-byte session budget; aborting"
    else
      match loop.dest, fails with
      | some _, some count => (loop.writeAll (bytes.take count)).fail "write"
      | _, _ =>
        let counting := { loop.writeAll bytes with
          transferred := (loop.transferred + bytes.length) % 2 ^ 64
          sessionWritten := sessionAfter }
        match counted with
        | .ok () => counting
        | .error error => counting.fail s!"zmodem file: {error}"

def started (budget : Option Nat) (loop : ReceiveLoop) (raw : String) (size : Option UInt64)
    (claimed : Except String UInt64) (accepted : Except String Unit) : ReceiveLoop :=
  let safe := sanitizeName raw
  if (budget.any fun most => size.any fun announced =>
      most < saturatingAdd loop.sessionWritten announced.toNat) then
    loop.fail (safe ++ s!" ({size.getD 0} bytes) does not fit in the remaining {budget.getD 0 -
      loop.sessionWritten} bytes of this session's budget; aborting")
  else
    match claimed with
    | .error error => loop.fail error
    | .ok resumeAt =>
      if 2 ^ 32 ≤ resumeAt.toNat then loop.fail "partial larger than 4 GiB (ZMODEM limit)"
      else
        let opened := { loop with
          transferred := resumeAt.toNat
          total := size
          dest := some ⟨loop.files, resumeAt.toNat⟩
          name := safe
          files := loop.files + 1 }
        match accepted with
        | .ok () => opened
        | .error error => opened.fail error

/-- One turn of a loop that has not ended. -/
def turn (budget : Option Nat) (loop : ReceiveLoop) : ReceiveStep → ReceiveLoop
  | .writeWire => loop
  | .writeFile bytes fails counted => loop.writeFile budget bytes fails counted
  | .readFile => loop.fail "receiver asked to read a file (protocol error)"
  | .started raw size claimed accepted => loop.started budget raw size claimed accepted
  | .fileDone finished =>
    match finished with
    | .ok onDisk => { loop with dest := none, name := onDisk.getD loop.name }
    | .error error => { loop with dest := none }.fail error
  | .completed => { loop with finished := true }
  | .aborted => { loop with ended := some .aborted }
  | .idle => if loop.finished then { loop with ended := some .completed } else loop
  | .stopped ending => { loop with ended := some ending }

def receive (budget : Option Nat) (loop : ReceiveLoop) (step : ReceiveStep) : ReceiveLoop :=
  if loop.ended.isSome then loop else loop.turn budget step

def receiveAll (budget : Option Nat) (loop : ReceiveLoop) (steps : List ReceiveStep) :
    ReceiveLoop := steps.foldl (receive budget) loop

/-- How much the session has written. -/
def spent (loop : ReceiveLoop) : Nat := (loop.written.map (·.bytes.length)).sum

end ReceiveLoop

/-! ### What should hold -/

/-- Written now, the bytes would be more than the session may write, or go past the ceiling of the
file. -/
def ReceiveLoop.Exceeds (budget : Option Nat) (loop : ReceiveLoop) (bytes : List UInt8) : Prop :=
  (∃ most ∈ budget, most < loop.spent + bytes.length) ∨
    ∃ dest ∈ loop.dest, ceiling loop.total < dest.cursor + bytes.length

/-- Neither limit is exceeded, and where the next bytes would, the transfer fails instead. -/
structure BudgetsHold (budget : Option Nat) (loop : ReceiveLoop) : Prop where
  session : ∀ most ∈ budget, loop.spent ≤ most
  file : ∀ write ∈ loop.written, write.start + write.bytes.length ≤ ceiling write.announced
  fails : loop.ended = none → ∀ bytes fails counted, loop.Exceeds budget bytes →
    ∃ error, loop.receive budget (.writeFile bytes fails counted) = loop.fail error

/-! ### What a turn keeps -/

theorem ceiling_le (total : Option UInt64) : ceiling total ≤ maxUnannouncedDownload := by
  unfold ceiling
  split
  · split
    · exact Nat.min_le_right _ _
    · exact Nat.le_refl _
  · exact Nat.le_refl _

theorem lt_saturatingAdd {limit first second : Nat} (small : limit < 2 ^ 64 - 1) :
    limit < saturatingAdd first second ↔ limit < first + second := by
  unfold saturatingAdd
  omega

theorem sessionBudget_lt {free : Option UInt64} {most : Nat} (isMost : most ∈ sessionBudget free) :
    most < 2 ^ 64 - 1 := by
  obtain ⟨space, _, rfl⟩ := Option.map_eq_some_iff.mp isMost
  have small := space.toNat_lt
  unfold zmodemDiskHeadroom
  omega

namespace ReceiveLoop

/-- The counters say what was written. -/
structure Kept (budget : Option Nat) (loop : ReceiveLoop) : Prop where
  session : ∀ most ∈ budget, loop.spent ≤ most ∧
    (loop.ended = none → loop.spent ≤ loop.sessionWritten ∧ loop.sessionWritten ≤ most)
  file : ∀ write ∈ loop.written, write.start + write.bytes.length ≤ ceiling write.announced
  cursor : loop.ended = none → ∀ dest ∈ loop.dest, dest.cursor = loop.transferred

variable {budget : Option Nat} {loop : ReceiveLoop}

/-- Once it has ended, what was written is all that counts. -/
theorem Kept.ended (kept : Kept budget loop) {later : ReceiveLoop}
    (written : later.written = loop.written) (ended : later.ended.isSome) : Kept budget later := by
  have isOver : later.ended ≠ none := Option.isSome_iff_ne_none.mp ended
  have same : later.spent = loop.spent := by
    rw [spent, written, spent]
  refine ⟨fun most isMost => ⟨?_, fun none => absurd none isOver⟩, ?_, fun none => absurd none isOver⟩
  · rw [same]
    exact (kept.session most isMost).1
  · rw [written]
    exact kept.file

theorem kept_started (kept : Kept budget loop) (raw : String)
    (size : Option UInt64) (claimed : Except String UInt64) (accepted : Except String Unit) :
    Kept budget (loop.started budget raw size claimed accepted) := by
  unfold started
  split
  · exact kept.ended rfl rfl
  · split
    · exact kept.ended rfl rfl
    · split
      · exact kept.ended rfl rfl
      · split
        · refine ⟨kept.session, kept.file, fun _ dest isDest => ?_⟩
          cases isDest
          rfl
        · exact kept.ended rfl rfl

theorem spent_writeAll (loop : ReceiveLoop) (bytes : List UInt8) :
    (loop.writeAll bytes).spent ≤ loop.spent + bytes.length := by
  unfold writeAll
  split
  · show bytes.length + loop.spent ≤ _
    omega
  · exact Nat.le_add_right _ _

theorem within_writeAll {bytes : List UInt8}
    (file : ∀ write ∈ loop.written, write.start + write.bytes.length ≤ ceiling write.announced)
    (room : ∀ dest ∈ loop.dest, dest.cursor + bytes.length ≤ ceiling loop.total) :
    ∀ write ∈ (loop.writeAll bytes).written,
      write.start + write.bytes.length ≤ ceiling write.announced := by
  unfold writeAll
  split
  · rename_i dest isDest
    intro write member
    rcases List.mem_cons.mp member with rfl | old
    · exact room dest isDest
    · exact file write old
  · exact file

/-- A write that is made is within both limits. -/
structure Fits (budget : Option Nat) (loop : ReceiveLoop) (bytes : List UInt8) : Prop where
  file : loop.transferred + bytes.length ≤ ceiling loop.total
  session : ∀ most ∈ budget, loop.sessionWritten + bytes.length ≤ most

theorem writeFile_cases (small : ∀ most ∈ budget, most < 2 ^ 64 - 1) (loop : ReceiveLoop)
    (bytes : List UInt8) (fails : Option Nat) (counted : Except String Unit) :
    (¬ Fits budget loop bytes ∧
      ∃ error, loop.writeFile budget bytes fails counted = loop.fail error) ∨
    (Fits budget loop bytes ∧
      ((∃ count error, loop.writeFile budget bytes fails counted =
          (loop.writeAll (bytes.take count)).fail error) ∨
        ∃ ended, loop.writeFile budget bytes fails counted = { loop.writeAll bytes with
          transferred := loop.transferred + bytes.length
          sessionWritten := saturatingAdd loop.sessionWritten bytes.length
          ended := ended })) := by
  have small32 : ceiling loop.total < 2 ^ 64 - 1 :=
    Nat.lt_of_le_of_lt (ceiling_le loop.total) (by decide)
  unfold writeFile
  by_cases tooMuch : ceiling loop.total < saturatingAdd loop.transferred bytes.length
  · refine .inl ⟨fun fits => ?_, _, if_pos tooMuch⟩
    have past := (lt_saturatingAdd small32).mp tooMuch
    exact absurd fits.file (Nat.not_le.mpr past)
  · rw [if_neg tooMuch]
    rw [lt_saturatingAdd small32, Nat.not_lt] at tooMuch
    by_cases spends : budget.any
        (fun most => decide (most < saturatingAdd loop.sessionWritten bytes.length)) = true
    · refine .inl ⟨fun fits => ?_, _, if_pos spends⟩
      obtain ⟨most, isMost, past⟩ := (Option.any_eq_true _ _).mp spends
      have past := (lt_saturatingAdd (small most isMost)).mp (of_decide_eq_true past)
      exact absurd (fits.session most isMost) (Nat.not_le.mpr past)
    · rw [if_neg spends]
      refine .inr ⟨⟨tooMuch, fun most isMost => ?_⟩, ?_⟩
      · by_contra past
        refine spends ((Option.any_eq_true _ _).mpr ⟨most, isMost, decide_eq_true ?_⟩)
        exact (lt_saturatingAdd (small most isMost)).mpr (Nat.not_le.mp past)
      · have whole : (loop.transferred + bytes.length) % 2 ^ 64 =
            loop.transferred + bytes.length :=
          Nat.mod_eq_of_lt (Nat.lt_of_le_of_lt tooMuch (Nat.lt_of_lt_of_le small32 (Nat.sub_le _ _)))
        dsimp only
        rw [whole]
        split
        · exact .inl ⟨_, _, rfl⟩
        · refine .inr ?_
          cases counted with
          | ok done => exact ⟨(loop.writeAll bytes).ended, rfl⟩
          | error error => exact ⟨_, rfl⟩

theorem kept_writeFile (small : ∀ most ∈ budget, most < 2 ^ 64 - 1) (kept : Kept budget loop)
    (going : loop.ended = none) (bytes : List UInt8) (fails : Option Nat)
    (counted : Except String Unit) : Kept budget (loop.writeFile budget bytes fails counted) := by
  have cursor := kept.cursor going
  have session (most : Nat) (isMost : most ∈ budget) := (kept.session most isMost).2 going
  rcases writeFile_cases small loop bytes fails counted with
    ⟨_, error, failed⟩ | ⟨fits, ⟨count, error, partly⟩ | ⟨ended, wrote⟩⟩
  · rw [failed]
    exact kept.ended rfl rfl
  · rw [partly]
    have shorter : (bytes.take count).length ≤ bytes.length := (List.take_sublist count bytes).length_le
    refine ⟨fun most isMost => ⟨?_, nofun⟩, ?_, nofun⟩
    · have spent := spent_writeAll loop (bytes.take count)
      have most := session most isMost
      have room := fits.session _ isMost
      show (loop.writeAll (bytes.take count)).spent ≤ _
      omega
    · refine within_writeAll kept.file fun dest isDest => ?_
      have room := fits.file
      rw [cursor dest isDest]
      omega
  · rw [wrote]
    have spent := spent_writeAll loop bytes
    refine ⟨fun most isMost => ?_, ?_, fun _ dest isDest => ?_⟩
    · have before := session most isMost
      have room := fits.session most isMost
      have unsaturated : saturatingAdd loop.sessionWritten bytes.length =
          loop.sessionWritten + bytes.length :=
        Nat.min_eq_left (Nat.le_trans room (Nat.le_of_lt (small most isMost)))
      refine ⟨?_, fun _ => ⟨?_, ?_⟩⟩
      · show (loop.writeAll bytes).spent ≤ _
        omega
      · show (loop.writeAll bytes).spent ≤ saturatingAdd loop.sessionWritten bytes.length
        omega
      · show saturatingAdd loop.sessionWritten bytes.length ≤ most
        omega
    · refine within_writeAll kept.file fun dest isDest => ?_
      rw [cursor dest isDest]
      exact fits.file
    · change dest ∈ (loop.writeAll bytes).dest at isDest
      show dest.cursor = loop.transferred + bytes.length
      unfold writeAll at isDest
      split at isDest
      · rename_i before isBefore
        cases isDest
        exact congrArg (· + bytes.length) (cursor before isBefore)
      · rename_i none
        rw [none] at isDest
        cases isDest

theorem kept_turn (small : ∀ most ∈ budget, most < 2 ^ 64 - 1) (kept : Kept budget loop)
    (going : loop.ended = none) (step : ReceiveStep) : Kept budget (loop.turn budget step) := by
  cases step with
  | writeWire => exact kept
  | writeFile bytes fails counted => exact kept_writeFile small kept going bytes fails counted
  | readFile => exact kept.ended rfl rfl
  | started raw size claimed accepted => exact kept_started kept raw size claimed accepted
  | fileDone finished =>
    cases finished with
    | ok onDisk => exact ⟨kept.session, kept.file, fun _ _ none => by cases none⟩
    | error error => exact kept.ended rfl rfl
  | completed => exact ⟨kept.session, kept.file, kept.cursor⟩
  | aborted => exact kept.ended rfl rfl
  | idle =>
    unfold turn
    dsimp only
    split
    · exact kept.ended rfl rfl
    · exact kept
  | stopped ending => exact kept.ended rfl rfl

theorem kept_receiveAll (small : ∀ most ∈ budget, most < 2 ^ 64 - 1) (kept : Kept budget loop)
    (steps : List ReceiveStep) : Kept budget (loop.receiveAll budget steps) := by
  induction steps generalizing loop with
  | nil => exact kept
  | cons step steps inductionHypothesis =>
    show Kept budget ((loop.receive budget step).receiveAll budget steps)
    refine inductionHypothesis ?_
    unfold receive
    split
    · exact kept
    · rename_i going
      exact kept_turn small kept (Option.not_isSome_iff_eq_none.mp going) step

theorem kept_start (budget : Option Nat) : Kept budget start where
  session _ _ := ⟨Nat.zero_le _, fun _ => ⟨Nat.le_refl _, Nat.zero_le _⟩⟩
  file _ member := absurd member List.not_mem_nil
  cursor _ _ none := by cases none

end ReceiveLoop

/-- Whatever the receiver brings, however much space was free: neither the session's budget nor the
ceiling of a file is exceeded, and a transfer that would exceed one fails instead. -/
theorem budgetsHold_receiveAll (free : Option UInt64) (steps : List ReceiveStep) :
    BudgetsHold (sessionBudget free)
      (ReceiveLoop.start.receiveAll (sessionBudget free) steps) := by
  have small : ∀ most ∈ sessionBudget free, most < 2 ^ 64 - 1 := fun _ => sessionBudget_lt
  have kept := ReceiveLoop.kept_receiveAll small
    (ReceiveLoop.kept_start (sessionBudget free)) steps
  refine ⟨fun most isMost => (kept.session most isMost).1, kept.file,
    fun going bytes fails counted exceeds => ?_⟩
  have turned (loop : ReceiveLoop) (going : loop.ended = none) :
      loop.receive (sessionBudget free) (.writeFile bytes fails counted) =
        loop.writeFile (sessionBudget free) bytes fails counted := by
    rw [ReceiveLoop.receive, going]
    rfl
  rw [turned _ going]
  rcases ReceiveLoop.writeFile_cases small _ bytes fails counted with ⟨_, failed⟩ | ⟨fits, _⟩
  · exact failed
  · rcases exceeds with ⟨most, isMost, past⟩ | ⟨dest, isDest, past⟩
    · have counts := (kept.session most isMost).2 going
      have room := fits.session most isMost
      omega
    · rw [kept.cursor going dest isDest] at past
      exact absurd fits.file (Nat.not_le.mpr past)

end Oryxis.Zmodem

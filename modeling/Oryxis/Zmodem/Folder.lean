/-
This file is a download folder and the ZMODEM transfers that receive into it.

Any number of sessions may be live, each with one file at a time, and their steps
come in any order. A part is locked while it is being written: an offer skips a part
that is held, takes over one that is not, and restarts it unless it looks like the
same file. The driver opens and locks a part in two calls, which are one step here.

What the session writes, when it ends and how is up to the peers. `writers` is for
the statements only: the offers that have written to a part since it was restarted.
-/

import Oryxis.Library.Machine
import Oryxis.Zmodem.Names

namespace Oryxis.Zmodem

open Library

inductive Entry where
  | file (content : List UInt8)
  | link
  | directory
  deriving DecidableEq, Repr

/-- What a sender announces to a session: a name, a size (zero for none), and what ties a part to
its source. -/
structure Offer where
  session : Nat
  raw : String
  advertised : Nat
  owner : Option String

/-- A file that is being received. -/
structure Live where
  session : Nat
  name : String
  owner : Option String
  stem : String

structure Folder where
  entries : String → Option Entry
  live : List Live
  writers : String → List Offer

def setEntry (entries : String → Option Entry) (name : String) (entry : Option Entry) :
    String → Option Entry :=
  fun other => if other = name then entry else entries other

def Folder.holds (folder : Folder) (stem : String) : Bool :=
  folder.live.any fun live => live.stem = stem

/-! ### Claiming a part -/

/-- The part a transfer has claimed: what was in it, if it was there before. -/
structure PartSlot where
  stem : String
  existing : Option (List UInt8)
  deriving DecidableEq, Repr

/-- One attempt at a part. A link is removed; a directory cannot be. -/
def openAndLockPart (folder : Folder) (stem : String) : Option PartSlot :=
  match folder.entries (partOf stem) with
  | some (.file content) => if folder.holds stem then none else some ⟨stem, some content⟩
  | some .link | none => some ⟨stem, none⟩
  | some .directory => none

/-- The first of the next candidates that can be locked. -/
def findSlot (folder : Folder) (name : String) : Nat → Nat → Option PartSlot
  | 0, _ => none
  | count + 1, number =>
    match openAndLockPart folder (candidateName name number) with
    | some slot => some slot
    | none => findSlot folder name count (number + 1)

/-- Whether the record beside a part names the owner and the size. -/
def resumeOwnerMatches (folder : Folder) (stem owner : String) (advertised : Nat) : Bool :=
  decide (folder.entries (resumeOwnerPath stem) = some (.file (recordBytes owner advertised)))

def owned (folder : Folder) (stem : String) (offer : Offer) : Bool :=
  match offer.owner with
  | none => true
  | some owner => resumeOwnerMatches folder stem owner offer.advertised

/-- Where a claimed part is continued, or zero. -/
def resumeAt (folder : Folder) (slot : PartSlot) (offer : Offer) : Nat :=
  match slot.existing with
  | some content =>
    if owned folder slot.stem offer ∧ 0 < offer.advertised ∧ 0 < content.length ∧
        content.length ≤ offer.advertised then content.length
    else 0
  | none => 0

def claimSlot (folder : Folder) (offer : Offer) : Option PartSlot :=
  findSlot folder (sanitizeName offer.raw) maxCandidates 0

/-- A new record, if the offer names an owner; `none` when what is in its place is a directory. -/
def writeResumeOwner (entries : String → Option Entry) (stem : String) (offer : Offer) :
    Option (String → Option Entry) :=
  match offer.owner with
  | none => some entries
  | some owner =>
    if entries (resumeOwnerPath stem) = some .directory then none
    else
      some (setEntry entries (resumeOwnerPath stem) (some (.file (recordBytes owner offer.advertised))))

/-- A session whose transfer has ended keeps no lock. -/
def Folder.release (folder : Folder) (session : Nat) : Folder :=
  { folder with live := folder.live.filter fun live => live.session ≠ session }

/-- A session that receives into a part. -/
def Folder.receive (folder : Folder) (offer : Offer) (stem : String) : Folder :=
  let released := folder.release offer.session
  { released with live := ⟨offer.session, sanitizeName offer.raw, offer.owner, stem⟩ :: released.live }

def Folder.offer (folder : Folder) (offer : Offer) : Folder :=
  match claimSlot folder offer with
  | none => folder.release offer.session
  | some slot =>
    if 0 < resumeAt folder slot offer then
      { folder.receive offer slot.stem with
        writers := fun stem =>
          if stem = slot.stem then offer :: folder.writers stem else folder.writers stem }
    else
      -- Restarted, under the lock.
      let restarted := setEntry folder.entries (partOf slot.stem) (some (.file []))
      match writeResumeOwner restarted slot.stem offer with
      | none => { folder.release offer.session with entries := restarted }
      | some entries =>
        { folder.receive offer slot.stem with
          entries := entries
          writers := fun stem => if stem = slot.stem then [offer] else folder.writers stem }

/-! ### Receiving and finishing -/

/-- More of the file. -/
def Folder.data (folder : Folder) (session : Nat) (bytes : List UInt8) : Option Folder :=
  match folder.live.find? fun live => live.session = session with
  | none => none
  | some live =>
    match folder.entries (partOf live.stem) with
    | some (.file content) =>
      some { folder with
        entries := setEntry folder.entries (partOf live.stem) (some (.file (content ++ bytes))) }
    | _ => none

/-- The first of the next candidates that is free. -/
def findFree (entries : String → Option Entry) (name : String) : Nat → Nat → Option String
  | 0, _ => none
  | count + 1, number =>
    if entries (candidateName name number) = none then some (candidateName name number)
    else findFree entries name count (number + 1)

/-- The record is removed before the part becomes the file. -/
def removeRecord (entries : String → Option Entry) (live : Live) : String → Option Entry :=
  if live.owner.isSome ∧ entries (resumeOwnerPath live.stem) ≠ some .directory then
    setEntry entries (resumeOwnerPath live.stem) none
  else entries

/-- The file is complete. When the rename is refused, the part stays and the reserved name goes. -/
def Folder.finish (folder : Folder) (session : Nat) (renames : Bool) : Option Folder :=
  match folder.live.find? fun live => live.session = session with
  | none => none
  | some live =>
    let entries := removeRecord folder.entries live
    match findFree entries live.name maxCandidates 0, renames with
    | some name, true =>
      some { folder.release session with
        entries := setEntry (setEntry entries name (entries (partOf live.stem)))
          (partOf live.stem) none
        writers := fun stem => if stem = live.stem then [] else folder.writers stem }
    | _, _ => some { folder.release session with entries := entries }

inductive Action where
  | offer (offer : Offer)
  | data (session : Nat) (bytes : List UInt8)
  | finish (session : Nat) (renames : Bool)
  | stop (session : Nat)

def Folder.step (folder : Folder) : Action → Option Folder
  | .offer offer => some (folder.offer offer)
  | .data session bytes => folder.data session bytes
  | .finish session renames => folder.finish session renames
  | .stop session => some (folder.release session)

/-- The transfers into a folder. -/
def transfers : Machine Folder Action where
  step := Folder.step

/-- A folder with what is in it, before any transfer. -/
def Folder.initial (entries : String → Option Entry) : Folder := ⟨entries, [], fun _ => []⟩

end Oryxis.Zmodem

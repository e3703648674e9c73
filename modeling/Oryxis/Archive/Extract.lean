/-
This file is the extraction of a zip archive into a folder, entry by entry, on a POSIX
system, with every location that is made, opened for writing or given a mode.

An entry's own name is vetted for `..` that lead out of the folder by counting, and the
target of a link is refused where it is absolute or has a `..`. Neither check knows the
links that are there already: a name may pass a link to the folder itself, and go up
from it. An entry stays in the folder where its name takes no `..` at the folder, links
followed; so does an archive whose entries all do.
-/

import Oryxis.Library.FileTree
import Oryxis.Library.Machine

namespace Oryxis.Archive

open Library FileTree List

/-! ### The source -/

/-- What the archive library says of an entry: whether it can be read at all, whether it is
encrypted, its name, whether that is a directory's, its mode, and its content where it can be
decompressed. -/
structure ZipEntry where
  readable : Bool
  encrypted : Bool
  name : String
  isDir : Bool
  unixMode : Option Nat
  content : Option (List UInt8)

/-- No leading part of a path has more `..` than names. -/
def enclosed (depth : Nat) : List Component → Bool
  | [] => true
  | .here :: rest => enclosed depth rest
  | .up :: rest => decide (0 < depth) && enclosed (depth - 1) rest
  | .name _ :: rest => enclosed (depth + 1) rest

/-- The archive library's guard on a name. -/
def enclosedName (name : String) : Option String :=
  if isAbsolute name then none
  else if enclosed 0 (plainComponents name) then some name
  else none

def isSymlink (mode : Nat) : Bool := mode &&& 0o170000 = 0o120000

/-- The paths a path is below, the nearest first, down to the folder itself. -/
def parents : List Component → List (List Component)
  | [] => []
  | .here :: rest => parents rest
  | _ :: rest => rest.dropWhile (· = .here) :: parents rest

/-- The paths above a path that is given from its start. -/
def ancestors (path : List Component) : List (List Component) :=
  (parents path.reverse).map List.reverse

/-- The folder and what is around it, what has been touched, and whether the extraction has
stopped with an error. -/
structure Extraction where
  tree : FileTree
  touched : List Location
  stopped : Bool

namespace Extraction

def stop (extraction : Extraction) : Extraction := { extraction with stopped := true }

def write (extraction : Extraction) (location : Location) (node : Node) : Extraction :=
  { extraction with
    tree := extraction.tree.put location node
    touched := extraction.touched ++ [location] }

/-- The directories of a list, each below the next one, where they are not there. -/
def createDirAll (extraction : Extraction) (links : Nat) (dest : Location) :
    List (List Component) → Extraction
  | [] => extraction
  | path :: parents =>
    match extraction.tree.newEntry links dest path with
    | .ok location => extraction.write location .dir
    | .error .notFound =>
      let made := extraction.createDirAll links dest parents
      if made.stopped then made
      else
        match made.tree.newEntry links dest path with
        | .ok location => made.write location .dir
        | .error _ => if made.tree.isDirAt links dest path then made else made.stop
    | .error _ => if extraction.tree.isDirAt links dest path then extraction else extraction.stop

/-- A link whose target is absolute or has a `..` is refused. -/
def symlink (extraction : Extraction) (links : Nat) (dest : Location) (path : List Component)
    (content : Option (List UInt8)) : Extraction :=
  match content.bind fun bytes => String.fromUTF8? ⟨bytes.toArray⟩ with
  | none => extraction.stop
  | some target =>
    if isAbsolute target || decide (.up ∈ plainComponents target) || decide (target = "") then
      extraction.stop
    else
      match extraction.tree.newEntry links dest path with
      | .ok location => extraction.write location (.link target)
      | .error _ => extraction.stop

/-- A mode that cannot be set is let be. -/
def setPermissions (extraction : Extraction) (links : Nat) (dest : Location)
    (path : List Component) (mode : Nat) : Extraction :=
  match extraction.tree.stat links dest path with
  | .ok location =>
    match extraction.tree location with
    | some (.file bytes _) => extraction.write location (.file bytes (some mode))
    | _ => extraction
  | .error _ => extraction

/-- A file that is there keeps its mode until it is given one. -/
def modeOf (tree : FileTree) (location : Location) : Option Nat :=
  match tree location with
  | some (.file _ mode) => mode
  | _ => none

def writeFile (extraction : Extraction) (links : Nat) (dest : Location) (path : List Component)
    (content : Option (List UInt8)) (unixMode : Option Nat) : Extraction :=
  match extraction.tree.openFile links dest path with
  | .error _ => extraction.stop
  | .ok location =>
    let written := extraction.write location
      (.file (content.getD []) (modeOf extraction.tree location))
    if content.isNone then written.stop
    else
      match unixMode with
      | some mode => written.setPermissions links dest path (mode &&& 0o777)
      | none => written

def entry (extraction : Extraction) (links : Nat) (dest : Location) (entry : ZipEntry) :
    Extraction :=
  if extraction.stopped then extraction
  else if !entry.readable || entry.encrypted then extraction.stop
  else
    match enclosedName entry.name with
    | none => extraction.stop
    | some rel =>
      if entry.isDir then
        extraction.createDirAll links dest (plainComponents rel :: ancestors (plainComponents rel))
      else
        let target := components rel
        let made := extraction.createDirAll links dest (ancestors target)
        if made.stopped then made
        else if entry.unixMode.any isSymlink then made.symlink links dest target entry.content
        else made.writeFile links dest target entry.content entry.unixMode

end Extraction

/-- The entries one after the other; the system follows so many links in a path. -/
def extractZip (links : Nat) (dest : Location) : Machine Extraction ZipEntry where
  step extraction entry := some (extraction.entry links dest entry)

/-! ### What is to hold -/

/-- Everything that has been touched is in the folder. -/
def Inside (dest : Location) (extraction : Extraction) : Prop :=
  ∀ location ∈ extraction.touched, dest <+: location

/-- The name of an entry that is extracted takes no `..` at the folder itself. -/
def StaysBelow (links : Nat) (dest : Location) (extraction : Extraction) (entry : ZipEntry) :
    Prop :=
  extraction.stopped = false → entry.readable = true → entry.encrypted = false →
    enclosedName entry.name = some entry.name →
      climbs extraction.tree dest links dest (components entry.name) = false

/-- An extraction starts on a folder with nothing in it. -/
structure Fresh (dest : Location) (extraction : Extraction) : Prop where
  isDir : extraction.tree dest = some .dir
  empty : ∀ location, dest <+: location → location ≠ dest → extraction.tree location = none
  untouched : extraction.touched = []
  notStopped : extraction.stopped = false

section

variable {links : Nat} {dest : Location} {extraction : Extraction}

/-- What holds while the archive is extracted. -/
structure Contained (dest : Location) (extraction : Extraction) : Prop where
  tame : Tame extraction.tree dest
  inside : Inside dest extraction

theorem Contained.stop (contained : Contained dest extraction) :
    Contained dest extraction.stop :=
  ⟨contained.tame, contained.inside⟩

theorem Contained.write (contained : Contained dest extraction) {location : Location} {node : Node}
    (inside : dest <+: location) (tame : Tame (extraction.tree.put location node) dest) :
    Contained dest (extraction.write location node) := by
  refine ⟨tame, fun other member => ?_⟩
  rcases mem_append.mp member with old | new
  · exact contained.inside other old
  · rw [mem_singleton.mp new]
    exact inside

variable {path : List Component}

/-- A directory is made where there is nothing. -/
theorem Contained.mkdir (contained : Contained dest extraction)
    (stays : climbs extraction.tree dest links dest path = false) {location : Location}
    (made : extraction.tree.newEntry links dest path = .ok location) :
    Contained dest (extraction.write location .dir) ∧
      Grows extraction.tree (extraction.write location .dir).tree := by
  obtain ⟨inside, missing⟩ := newEntry_inside contained.tame stays made
  have grows := grows_put_dir missing
  exact ⟨contained.write inside (contained.tame.grows grows), grows⟩

theorem grows_trans {first second third : FileTree} (before : Grows first second)
    (after : Grows second third) : Grows first third := by
  intro location
  rcases after location with same | ⟨missing, isDir⟩ | ⟨free, isFile⟩
  · rw [same]
    exact before location
  · rcases before location with same | ⟨_, wasDir⟩ | ⟨_, _, _, wasFile⟩
    · exact .inr (.inl ⟨same ▸ missing, isDir⟩)
    · rw [wasDir] at missing
      cases missing
    · rw [wasFile] at missing
      cases missing
  · refine .inr (.inr ⟨?_, isFile⟩)
    rcases before location with same | ⟨_, wasDir⟩ | ⟨wasFree, -⟩
    · rw [← same]
      exact free
    · rw [wasDir] at free
      rcases free with missing | ⟨_, _, wasFile⟩
      · cases missing
      · cases wasFile
    · exact wasFree

/-- Directories are made inside, as long as the paths to them stay there. -/
theorem Contained.createDirAll (paths : List (List Component)) :
    ∀ {extraction : Extraction}, Contained dest extraction →
      (∀ path ∈ paths, climbs extraction.tree dest links dest path = false) →
        Contained dest (extraction.createDirAll links dest paths) ∧
          Grows extraction.tree (extraction.createDirAll links dest paths).tree := by
  induction paths with
  | nil => exact fun contained _ => ⟨contained, grows_refl _⟩
  | cons path paths inductionHypothesis =>
    intro extraction contained stays
    have staysHere := stays path mem_cons_self
    have settled : ∀ {made : Extraction}, Contained dest made → Grows extraction.tree made.tree →
        Contained dest (if made.tree.isDirAt links dest path then made else made.stop) ∧
          Grows extraction.tree
            (if made.tree.isDirAt links dest path then made else made.stop).tree := by
      intro made isContained grows
      split
      · exact ⟨isContained, grows⟩
      · exact ⟨isContained.stop, grows⟩
    rw [Extraction.createDirAll]
    split
    · rename_i location made
      exact contained.mkdir staysHere made
    · obtain ⟨made, grows⟩ := inductionHypothesis contained
        fun other member => stays other (mem_cons_of_mem _ member)
      dsimp only
      split
      · exact ⟨made, grows⟩
      · split
        · rename_i location isNew
          obtain ⟨isContained, more⟩ :=
            made.mkdir (climbs_grows grows links dest path staysHere) isNew
          exact ⟨isContained, grows_trans grows more⟩
        · exact settled made grows
    · exact settled contained (grows_refl _)

theorem isSuffix_of_mem_parents :
    ∀ {reversed : List Component}, path ∈ parents reversed → path <:+ reversed := by
  intro reversed member
  induction reversed with
  | nil => exact absurd member not_mem_nil
  | cons component rest inductionHypothesis =>
    have below : path ∈ parents rest → path <:+ component :: rest :=
      fun later => (inductionHypothesis later).trans (suffix_cons component rest)
    cases component with
    | here => exact below member
    | up | name text =>
      rcases mem_cons.mp member with rfl | later
      · exact (dropWhile_suffix _).trans (suffix_cons _ rest)
      · exact below later

/-- A path that stays inside does so down to each of the paths it is below. -/
theorem stays_ancestors (stays : climbs extraction.tree dest links dest path = false) :
    ∀ above ∈ ancestors path, climbs extraction.tree dest links dest above = false := by
  intro above member
  obtain ⟨reversed, isParent, rfl⟩ := mem_map.mp member
  have isPrefix := reverse_prefix.mpr (isSuffix_of_mem_parents isParent)
  rw [reverse_reverse] at isPrefix
  obtain ⟨rest, split⟩ := isPrefix
  rw [← split] at stays
  exact climbs_append links dest _ rest stays

theorem Contained.symlink (contained : Contained dest extraction)
    (stays : climbs extraction.tree dest links dest path = false) (content : Option (List UInt8)) :
    Contained dest (extraction.symlink links dest path content) := by
  unfold Extraction.symlink
  split
  · exact contained.stop
  · rename_i target _
    split
    · exact contained.stop
    · rename_i accepted
      have relative : isAbsolute target = false := by
        cases absolute : isAbsolute target with
        | false => rfl
        | true =>
          rw [absolute] at accepted
          exact absurd rfl accepted
      split
      · rename_i location made
        have inside := (newEntry_inside contained.tame stays made).1
        exact contained.write inside (contained.tame.put_link location relative)
      · exact contained.stop

theorem Contained.setPermissions (contained : Contained dest extraction)
    (stays : climbs extraction.tree dest links dest path = false) (mode : Nat) :
    Contained dest (extraction.setPermissions links dest path mode) := by
  unfold Extraction.setPermissions
  split
  · rename_i location found
    split
    · rename_i bytes old isFile
      have grows := grows_put_file bytes (some mode) (.inr ⟨bytes, old, isFile⟩)
      exact contained.write (stat_inside contained.tame stays found) (contained.tame.grows grows)
    · exact contained
  · exact contained

theorem Contained.writeFile (contained : Contained dest extraction)
    (stays : climbs extraction.tree dest links dest path = false) (content : Option (List UInt8))
    (unixMode : Option Nat) :
    Contained dest (extraction.writeFile links dest path content unixMode) := by
  unfold Extraction.writeFile
  split
  · exact contained.stop
  · rename_i location opened
    obtain ⟨inside, free⟩ := openFile_inside contained.tame stays opened
    have grows := grows_put_file (content.getD []) (Extraction.modeOf extraction.tree location) free
    have written := contained.write inside (contained.tame.grows grows)
    dsimp only
    split
    · exact written.stop
    · split
      · exact written.setPermissions (climbs_grows grows links dest path stays) _
      · exact written

/-- The components of a directory's name are those of the name, up to the slash at its end. -/
theorem stays_plainComponents {name : String}
    (stays : climbs extraction.tree dest links dest (components name) = false) :
    climbs extraction.tree dest links dest (plainComponents name) = false :=
  climbs_append links dest _ _ stays

theorem Contained.entry (contained : Contained dest extraction) {entry : ZipEntry}
    (stays : StaysBelow links dest extraction entry) :
    Contained dest (extraction.entry links dest entry) := by
  unfold Extraction.entry
  split
  · exact contained
  · rename_i goesOn
    split
    · exact contained.stop
    · rename_i isRead
      obtain ⟨unread, plain⟩ := Bool.or_eq_false_iff.mp (Bool.not_eq_true _ ▸ isRead)
      have readable : entry.readable = true := by simpa using unread
      split
      · exact contained.stop
      · rename_i rel accepted
        have same : rel = entry.name := by
          unfold enclosedName at accepted
          split at accepted
          · cases accepted
          · split at accepted
            · exact (Option.some.inj accepted).symm
            · cases accepted
        subst same
        have below := stays (Bool.not_eq_true _ ▸ goesOn) readable plain accepted
        split
        · have plainBelow := stays_plainComponents below
          refine (contained.createDirAll _ fun path member => ?_).1
          rcases mem_cons.mp member with rfl | above
          · exact plainBelow
          · exact stays_ancestors plainBelow path above
        · obtain ⟨made, grows⟩ := contained.createDirAll _ (stays_ancestors below)
          have stillBelow := climbs_grows grows links dest _ below
          dsimp only
          split
          · exact made
          · split
            · exact made.symlink stillBelow _
            · exact made.writeFile stillBelow _ _

theorem Fresh.contained (fresh : Fresh dest extraction) : Contained dest extraction where
  tame := by
    intro location target inside isLink
    by_cases same : location = dest
    · rw [same, fresh.isDir] at isLink
      cases isLink
    · rw [fresh.empty location inside same] at isLink
      cases isLink
  inside := by
    intro location member
    rw [fresh.untouched] at member
    cases member

end

/-! ### Every archive -/

instance (links : Nat) (dest : Location) (extraction : Extraction) (entry : ZipEntry) :
    Decidable (StaysBelow links dest extraction entry) :=
  inferInstanceAs (Decidable (extraction.stopped = false → entry.readable = true →
    entry.encrypted = false → enclosedName entry.name = some entry.name →
      climbs extraction.tree dest links dest (components entry.name) = false))

def outFolder : Location := ["home", "out"]

/-- A folder with nothing in it. -/
def freshStart : Extraction where
  tree location := if location <+: outFolder then some .dir else none
  touched := []
  stopped := false

theorem fresh_freshStart : Fresh outFolder freshStart where
  isDir := by
    show (if outFolder <+: outFolder then some Node.dir else none) = some .dir
    exact if_pos (prefix_refl _)
  empty := fun location inside ne => if_neg fun above =>
    ne (IsPrefix.eq_of_length above (Nat.le_antisymm above.length_le inside.length_le))
  untouched := rfl
  notStopped := rfl

def plainEntry (name : String) (isDir : Bool) (mode : Nat) (bytes : List UInt8) : ZipEntry where
  readable := true
  encrypted := false
  name := name
  isDir := isDir
  unixMode := some mode
  content := some bytes

/-- A directory, a file in it, a link to the file, and a file through the link, whose name goes up
from the directory. -/
def plainArchive : List ZipEntry :=
  [plainEntry "a/" true 0o040755 [], plainEntry "a/b" false 0o100600 [1],
    plainEntry "l" false 0o120777 [0x61], plainEntry "l/../c" false 0o104755 [2],
    plainEntry "l/b" false 0o100644 [3]]

/-- A link to the folder itself, and a name that passes it and goes up. -/
def climbingArchive : List ZipEntry :=
  [plainEntry "l" false 0o120777 [0x2e], plainEntry "l/../evil" false 0o100644 [1]]

end Oryxis.Archive

/-
This file is a tree of directories, files and symbolic links as a POSIX system has it,
and how it follows a path: link by link, from the directory it has reached, with `..`
leading to the directory above that one.

A location is a path without links or dots, the names from the root on. A path that is
followed from a base directory stays below the base unless it takes a `..` at the base
itself. Whether it does is decided by the links and files that are there: what a path
passes that is not there counts as a directory, because it may be made one.
-/

import Mathlib.Data.List.Infix

namespace Oryxis.Library

open List

/-! ### Paths -/

inductive Component
  | here
  | up
  | name (text : String)
  deriving DecidableEq

def isAbsolute (text : String) : Bool := text.toList.head? = some '/'

/-- The components between the slashes. -/
def plainComponents (text : String) : List Component :=
  (text.toList.splitOn '/').filterMap fun part =>
    if part = [] then none
    else if part = ['.'] then some .here
    else if part = ['.', '.'] then some .up
    else some (.name (String.ofList part))

/-- A slash at the end asks for a directory, as a dot would. -/
def components (text : String) : List Component :=
  plainComponents text ++ if text.toList.getLast? = some '/' then [.here] else []

/-! ### Trees -/

abbrev Location := List String

inductive Node
  | dir
  | file (bytes : List UInt8) (mode : Option Nat)
  | link (target : String)
  deriving DecidableEq

abbrev FileTree := Location → Option Node

inductive Errno
  | notFound
  | exists
  | other

namespace FileTree

def put (tree : FileTree) (location : Location) (node : Node) : FileTree :=
  Function.update tree location (some node)

def isDir (tree : FileTree) (location : Location) : Bool := tree location = some .dir

/-- Where a path leads, and what it leads to may be missing. `expand` follows the path that a link
makes of the rest. -/
def lookupWith (tree : FileTree)
    (expand : Location → List Component → Except Errno Location) :
    Location → List Component → Except Errno Location
  | reached, [] => .ok reached
  | reached, component :: rest =>
    if tree.isDir reached then
      match component with
      | .here => lookupWith tree expand reached rest
      | .up => lookupWith tree expand reached.dropLast rest
      | .name text =>
        match tree (reached ++ [text]) with
        | some (.link target) =>
          expand (if isAbsolute target then [] else reached) (components target ++ rest)
        | some _ => lookupWith tree expand (reached ++ [text]) rest
        | none => if rest = [] then .ok (reached ++ [text]) else .error .notFound
    else .error .other

/-- A system follows only so many links. -/
def lookup (tree : FileTree) : Nat → Location → List Component → Except Errno Location
  | 0 => lookupWith tree fun _ _ => .error .other
  | links + 1 => lookupWith tree (lookup tree links)

/-- Where a path leads to something. -/
def stat (tree : FileTree) (links : Nat) (base : Location) (path : List Component) :
    Except Errno Location :=
  match tree.lookup links base path with
  | .ok location => if tree location = none then .error .notFound else .ok location
  | .error error => .error error

def isDirAt (tree : FileTree) (links : Nat) (base : Location) (path : List Component) : Bool :=
  match tree.stat links base path with
  | .ok location => tree.isDir location
  | .error _ => false

/-- Where a new directory or link is made. A link at the end of the path is not followed. -/
def newEntry (tree : FileTree) (links : Nat) (base : Location) (path : List Component) :
    Except Errno Location :=
  match path.getLast? with
  | some (.name text) =>
    match tree.stat links base path.dropLast with
    | .ok parent =>
      if !tree.isDir parent then .error .other
      else if tree (parent ++ [text]) = none then .ok (parent ++ [text])
      else .error .exists
    | .error error => .error error
  | _ =>
    match tree.stat links base path with
    | .ok _ => .error .exists
    | .error error => .error error

/-- Where a file is opened for writing, and made where there is none. -/
def openFile (tree : FileTree) (links : Nat) (base : Location) (path : List Component) :
    Except Errno Location :=
  match tree.lookup links base path with
  | .ok location =>
    match tree location with
    | none | some (.file _ _) => .ok location
    | _ => .error .other
  | .error error => .error error

/-! ### Paths that climb past their base -/

/-- A path that is followed takes a `..` at the base. -/
def climbsWith (tree : FileTree) (base : Location)
    (expand : Location → List Component → Bool) : Location → List Component → Bool
  | _, [] => false
  | reached, .here :: rest => climbsWith tree base expand reached rest
  | reached, .up :: rest =>
    decide (reached = base) || climbsWith tree base expand reached.dropLast rest
  | reached, .name text :: rest =>
    match tree (reached ++ [text]) with
    | some (.link target) =>
      expand (if isAbsolute target then [] else reached) (components target ++ rest)
    | some (.file _ _) => false
    | _ => climbsWith tree base expand (reached ++ [text]) rest

def climbs (tree : FileTree) (base : Location) : Nat → Location → List Component → Bool
  | 0 => climbsWith tree base fun _ _ => false
  | links + 1 => climbsWith tree base (climbs tree base links)

/-- No link below the base is absolute. -/
def Tame (tree : FileTree) (base : Location) : Prop :=
  ∀ location target, base <+: location → tree location = some (.link target) →
    isAbsolute target = false

/-- What becomes of a tree where only directories and files are made and files written over. -/
def Grows (tree grown : FileTree) : Prop :=
  ∀ location, grown location = tree location ∨
    (tree location = none ∧ grown location = some .dir) ∨
    ((tree location = none ∨ ∃ bytes mode, tree location = some (.file bytes mode)) ∧
      ∃ bytes mode, grown location = some (.file bytes mode))

variable {tree grown : FileTree} {base : Location}

theorem put_self (tree : FileTree) (location : Location) (node : Node) :
    tree.put location node location = some node :=
  Function.update_self ..

variable {location : Location}

theorem put_of_ne {other : Location} (node : Node) (ne : other ≠ location) :
    tree.put location node other = tree other :=
  Function.update_of_ne ne ..

theorem dropLast_inside (inside : base <+: location) (ne : location ≠ base) :
    base <+: location.dropLast := by
  obtain ⟨rest, rfl⟩ := inside
  have notNil : rest ≠ [] := fun isNil => ne (by rw [isNil, append_nil])
  rw [dropLast_append_of_ne_nil notNil]
  exact prefix_append _ _

/-- A path that stays below the base stays there up to any of its components. -/
theorem climbsWith_append {expand : Location → List Component → Bool}
    (expands : ∀ reached path rest, expand reached (path ++ rest) = false →
      expand reached path = false) (path rest : List Component) :
    ∀ reached, climbsWith tree base expand reached (path ++ rest) = false →
      climbsWith tree base expand reached path = false := by
  induction path with
  | nil => exact fun _ _ => rfl
  | cons component path inductionHypothesis =>
    intro reached stays
    cases component with
    | here => exact inductionHypothesis reached stays
    | up =>
      obtain ⟨notBase, later⟩ := Bool.or_eq_false_iff.mp stays
      exact Bool.or_eq_false_iff.mpr ⟨notBase, inductionHypothesis _ later⟩
    | name text =>
      rw [cons_append, climbsWith] at stays
      rw [climbsWith]
      split at stays
      · rename_i target isLink
        rw [← append_assoc] at stays
        exact expands _ _ _ stays
      · rfl
      · exact inductionHypothesis _ stays

theorem climbs_append (links : Nat) (reached : Location) (path rest : List Component)
    (stays : climbs tree base links reached (path ++ rest) = false) :
    climbs tree base links reached path = false := by
  induction links generalizing reached path rest with
  | zero => exact climbsWith_append (fun _ _ _ _ => rfl) path rest reached stays
  | succ links inductionHypothesis => exact climbsWith_append inductionHypothesis path rest reached stays

/-- A path that stays below the base does so when there are more directories and files. -/
theorem climbsWith_grows (grows : Grows tree grown)
    {expand later : Location → List Component → Bool}
    (expands : ∀ reached path, expand reached path = false → later reached path = false)
    (path : List Component) :
    ∀ reached, climbsWith tree base expand reached path = false →
      climbsWith grown base later reached path = false := by
  induction path with
  | nil => exact fun _ _ => rfl
  | cons component path inductionHypothesis =>
    intro reached stays
    cases component with
    | here => exact inductionHypothesis reached stays
    | up =>
      obtain ⟨notBase, rest⟩ := Bool.or_eq_false_iff.mp stays
      exact Bool.or_eq_false_iff.mpr ⟨notBase, inductionHypothesis _ rest⟩
    | name text =>
      rw [climbsWith] at stays ⊢
      rcases grows (reached ++ [text]) with same | ⟨missing, isDir⟩ | ⟨-, bytes, mode, isFile⟩
      · rw [same]
        split at stays
        · exact expands _ _ stays
        · rfl
        · exact inductionHypothesis _ stays
      · rw [missing] at stays
        rw [isDir]
        exact inductionHypothesis _ stays
      · rw [isFile]

theorem climbs_grows (grows : Grows tree grown) (links : Nat) (reached : Location)
    (path : List Component) (stays : climbs tree base links reached path = false) :
    climbs grown base links reached path = false := by
  induction links generalizing reached path with
  | zero => exact climbsWith_grows grows (fun _ _ _ => rfl) path reached stays
  | succ links inductionHypothesis =>
    exact climbsWith_grows grows inductionHypothesis path reached stays

/-- Where every link is relative, a path that does not climb past its base leads below it. -/
theorem lookupWith_inside (tame : Tame tree base)
    {expand : Location → List Component → Except Errno Location}
    {climb : Location → List Component → Bool}
    (expands : ∀ reached path location, base <+: reached → climb reached path = false →
      expand reached path = .ok location → base <+: location) (path : List Component) :
    ∀ reached location, base <+: reached → climbsWith tree base climb reached path = false →
      lookupWith tree expand reached path = .ok location → base <+: location := by
  induction path with
  | nil =>
    intro reached location inside _ found
    cases found
    exact inside
  | cons component path inductionHypothesis =>
    intro reached location inside stays found
    unfold lookupWith at found
    split at found
    · cases component with
      | here => exact inductionHypothesis reached location inside stays found
      | up =>
        obtain ⟨notBase, rest⟩ := Bool.or_eq_false_iff.mp stays
        exact inductionHypothesis _ location
          (dropLast_inside inside (of_decide_eq_false notBase)) rest found
      | name text =>
        have below : base <+: reached ++ [text] := inside.trans (prefix_append _ _)
        rw [climbsWith] at stays
        dsimp only at found
        split at found
        · rename_i target isLink
          have relative := tame _ target below isLink
          simp only [isLink] at stays
          rw [relative, if_neg Bool.false_ne_true] at stays found
          exact expands reached _ location inside stays found
        · rename_i node notLink isThere
          rw [isThere] at stays
          cases node with
          | link target => exact absurd rfl (notLink target)
          | dir => exact inductionHypothesis _ location below stays found
          | file bytes mode =>
            -- Nothing is below a file.
            cases path with
            | nil =>
              cases found
              exact below
            | cons component path =>
              have notDir : tree.isDir (reached ++ [text]) = false :=
                decide_eq_false (by rw [isThere]; nofun)
              unfold lookupWith at found
              rw [notDir] at found
              cases found
        · rename_i missing
          split at found
          · cases found
            exact below
          · cases found
    · cases found

theorem lookup_inside (tame : Tame tree base) (links : Nat) (path : List Component)
    (reached location : Location) (inside : base <+: reached)
    (stays : climbs tree base links reached path = false)
    (found : tree.lookup links reached path = .ok location) : base <+: location := by
  induction links generalizing path reached location with
  | zero =>
    exact lookupWith_inside tame (fun _ _ _ _ _ found => by cases found) path reached location
      inside stays found
  | succ links inductionHypothesis =>
    exact lookupWith_inside tame
      (fun reached path location => inductionHypothesis path reached location) path reached location
      inside stays found

/-! ### What is made below the base -/

variable {links : Nat} {path : List Component}

theorem stat_inside (tame : Tame tree base) (stays : climbs tree base links base path = false)
    (found : tree.stat links base path = .ok location) : base <+: location := by
  unfold stat at found
  split at found
  · rename_i isFound
    split at found
    · cases found
    · cases found
      exact lookup_inside tame links path base _ (prefix_refl base) stays isFound
  · cases found

/-- A new entry is one that is not there, below the base. -/
theorem newEntry_inside (tame : Tame tree base) (stays : climbs tree base links base path = false)
    (made : tree.newEntry links base path = .ok location) :
    base <+: location ∧ tree location = none := by
  unfold newEntry at made
  split at made
  · rename_i text isLast
    split at made
    · rename_i parent found
      split at made
      · cases made
      · split at made
        · rename_i missing
          cases made
          have split : path.dropLast ++ [.name text] = path :=
            dropLast_append_getLast? _ isLast
          rw [← split] at stays
          have inside := stat_inside tame (climbs_append links base _ _ stays) found
          exact ⟨inside.trans (prefix_append _ _), missing⟩
        · cases made
    · cases made
  · split at made <;> cases made

/-- A file that is opened is a new one or a file, below the base. -/
theorem openFile_inside (tame : Tame tree base) (stays : climbs tree base links base path = false)
    (opened : tree.openFile links base path = .ok location) :
    base <+: location ∧
      (tree location = none ∨ ∃ bytes mode, tree location = some (.file bytes mode)) := by
  unfold openFile at opened
  split at opened
  · rename_i found
    have inside := fun other isFound =>
      lookup_inside tame links path base other (prefix_refl base) stays isFound
    split at opened
    · rename_i missing
      cases opened
      exact ⟨inside _ found, .inl missing⟩
    · rename_i bytes mode isFile
      cases opened
      exact ⟨inside _ found, .inr ⟨bytes, mode, isFile⟩⟩
    · cases opened
  · cases opened

theorem grows_refl (tree : FileTree) : Grows tree tree := fun _ => .inl rfl

theorem grows_put_dir (missing : tree location = none) :
    Grows tree (tree.put location .dir) := by
  intro other
  by_cases same : other = location
  · rw [same]
    exact .inr (.inl ⟨missing, put_self ..⟩)
  · exact .inl (put_of_ne _ same)

theorem grows_put_file (bytes : List UInt8) (mode : Option Nat)
    (free : tree location = none ∨ ∃ bytes mode, tree location = some (.file bytes mode)) :
    Grows tree (tree.put location (.file bytes mode)) := by
  intro other
  by_cases same : other = location
  · rw [same]
    exact .inr (.inr ⟨free, bytes, mode, put_self ..⟩)
  · exact .inl (put_of_ne _ same)

theorem Tame.grows (tame : Tame tree base) (grows : Grows tree grown) : Tame grown base := by
  intro location target inside isLink
  rcases grows location with same | ⟨-, isDir⟩ | ⟨-, _, _, isFile⟩
  · exact tame location target inside (same.symm.trans isLink)
  · rw [isDir] at isLink
    cases isLink
  · rw [isFile] at isLink
    cases isLink

theorem Tame.put_link (tame : Tame tree base) (location : Location) {target : String}
    (relative : isAbsolute target = false) : Tame (tree.put location (.link target)) base := by
  intro other isTarget inside isLink
  by_cases same : other = location
  · rw [same, put_self] at isLink
    cases isLink
    exact relative
  · rw [put_of_ne _ same] at isLink
    exact tame other isTarget inside isLink

end FileTree

end Oryxis.Library

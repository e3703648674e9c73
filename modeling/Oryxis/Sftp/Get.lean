/-
This file is the console's `get` and what it does to local paths.

A server answers whatever it likes at every step, and differently when it is asked
again, so the answers are given one by one: to a source its attributes and how its
download goes, to a directory of a tree whether it can be made and what is listed in
it. What comes out is every local path that is created, written or given other
attributes.
-/

import Mathlib.Data.Nat.Find
import Oryxis.Library.Worklist
import Oryxis.Sftp.EntryNames

namespace Oryxis

open Library

/-- The attributes of a remote file that a download looks at. -/
structure RemoteStat where
  permissions : Option Nat
  mtime : Option Nat
  deriving DecidableEq, Repr

/-- How far a download gets: `refused` before it opens its scratch file, `stopped` before it moves
it onto its target, `unclaimed` when it cannot be moved. -/
inductive Delivery where
  | refused
  | stopped
  | unclaimed
  | delivered
  deriving DecidableEq, Repr

structure SftpEntry where
  name : String
  isDir : Bool
  isSymlink : Bool
  stat : RemoteStat
  delivery : Delivery

structure XferOpts where
  fsync : Bool
  preserve : Bool
  recursive : Bool

inductive LocalAct where
  | createDir
  | write
  | replace
  | sync
  | setMode (mode : Nat)
  | setMtime (mtime : Nat)
  deriving DecidableEq, Repr

structure Touch where
  path : LocalPath
  act : LocalAct
  deriving DecidableEq, Repr

/-- The type bits of a mode. -/
def fileType (mode : Nat) : Nat := mode &&& 0o170000

def isDirStat (stat : RemoteStat) : Bool := stat.permissions.any fun mode => fileType mode = 0o040000

def isRegular (stat : RemoteStat) (entry : SftpEntry) : Bool :=
  match stat.permissions with
  | some mode => fileType mode = 0o100000
  | none => !entry.isDir

/-! ### One file -/

def downloadMode (preserve : Bool) (sourceMode : Option Nat) (lumask : Nat) : Option Nat :=
  let permissionBits := sourceMode.map (· &&& 0o777)
  if preserve then permissionBits
  else some (((permissionBits.getD 0o666) ||| 0o200) &&& (0o777 ^^^ (lumask &&& 0o777)))

def download (delivery : Delivery) (dest : LocalPath) : List Touch :=
  match delivery with
  | .refused => []
  | .stopped => [⟨partPath dest, .write⟩]
  | .unclaimed | .delivered => [⟨partPath dest, .write⟩, ⟨dest, .replace⟩]

/-- Windows has no mode to set. -/
def setLocalMode (windows : Bool) (path : LocalPath) (mode : Nat) : List Touch :=
  if windows then [] else [⟨path, .setMode mode⟩]

/-- One file, and whether it failed. -/
def getOne (windows : Bool) (opts : XferOpts) (lumask : Nat) (dest : LocalPath) (stat : Option RemoteStat)
    (delivery : Delivery) : List Touch × Bool :=
  if delivery = .delivered then
    (download delivery dest ++ (if opts.fsync then [⟨dest, .sync⟩] else []) ++
      (downloadMode opts.preserve (stat.bind RemoteStat.permissions) lumask).toList.flatMap
        (setLocalMode windows dest) ++
      (if opts.preserve then (stat.bind RemoteStat.mtime).toList.map fun mtime =>
        ⟨dest, .setMtime mtime⟩ else []), false)
  else (download delivery dest, true)

/-! ### A tree -/

def maxDirDepth : Nat := 64

structure PendingDir where
  path : LocalPath
  depth : Nat

/-- What is answered when a directory of the tree is popped. -/
structure DirAnswer where
  created : Bool
  stat : Option RemoteStat
  entries : Option (List SftpEntry)

/-- What visiting a directory leads to. -/
inductive TreeEffect where
  | touched (touch : Touch)
  | failed
  | attributes (path : LocalPath) (stat : RemoteStat)
  deriving DecidableEq, Repr

variable (windows : Bool) (opts : XferOpts) (lumask : Nat)

/-- An entry that is itself a directory to go into. -/
def SftpEntry.entersDir (entry : SftpEntry) (dir : PendingDir) : Bool :=
  isSafeEntryNameOn entry.name windows && !entry.isSymlink && entry.isDir &&
    decide (dir.depth + 1 < maxDirDepth)

def pushedDirs (dir : PendingDir) (answer : DirAnswer) : List PendingDir :=
  if answer.created then
    ((answer.entries.getD []).filter fun entry => entry.entersDir windows dir).map fun entry =>
      ⟨dir.path ++ [entry.name], dir.depth + 1⟩
  else []

def entryEffects (dir : PendingDir) (entry : SftpEntry) : List TreeEffect :=
  if !isSafeEntryNameOn entry.name windows then [.failed]
  else if entry.isSymlink then []
  else if entry.isDir then if dir.depth + 1 ≥ maxDirDepth then [.failed] else []
  else if !isRegular entry.stat entry then []
  else
    let (touches, failed) :=
      getOne windows opts lumask (dir.path ++ [entry.name]) (some entry.stat) entry.delivery
    touches.map .touched ++ if failed then [.failed] else []

def dirEffects (dir : PendingDir) (answer : DirAnswer) : List TreeEffect :=
  .touched ⟨dir.path, .createDir⟩ ::
    if !answer.created then [.failed]
    else
      (if opts.preserve then answer.stat.toList.map (.attributes dir.path) else []) ++
        match answer.entries with
        | none => [.failed]
        | some entries => entries.flatMap (entryEffects windows opts lumask dir)

/-- The loop of `get_tree`: directories are popped from the stack and push their own. -/
def treeWalker : Walker PendingDir DirAnswer TreeEffect where
  effects := dirEffects windows opts lumask
  pushed := pushedDirs windows

/-- A directory is one level below the one that pushed it. -/
theorem lower_of_mem_pushedDirs {dir child : PendingDir} {answer : DirAnswer}
    (member : child ∈ pushedDirs windows dir answer) :
    maxDirDepth - child.depth < maxDirDepth - dir.depth ∧ child.depth = dir.depth + 1 := by
  unfold pushedDirs at member
  split at member
  · obtain ⟨entry, listed, rfl⟩ := List.mem_map.mp member
    have enters := (List.mem_filter.mp listed).2
    simp only [SftpEntry.entersDir, Bool.and_eq_true, decide_eq_true_eq] at enters
    exact ⟨by grind, rfl⟩
  · cases member

variable (answers : Nat → DirAnswer) (root : LocalPath)

theorem tree_ends : ∃ count,
    ((treeWalker windows opts lumask).run answers [⟨root, 0⟩] count).stack.isEmpty = true := by
  have ends : ∃ count, ((treeWalker windows opts lumask).run answers [⟨root, 0⟩] count).stack = [] :=
    Walker.exists_ended (fun dir => maxDirDepth - dir.depth) fun _ _ _ member =>
      (lower_of_mem_pushedDirs windows member).1
  obtain ⟨count, ended⟩ := ends
  exact ⟨count, by rw [ended]; rfl⟩

/-- The number of directories the walk goes through. -/
def treeSize : Nat := Nat.find (tree_ends windows opts lumask answers root)

def treeEffects : List TreeEffect :=
  ((treeWalker windows opts lumask).run answers [⟨root, 0⟩]
    (treeSize windows opts lumask answers root)).effects

/-- The attributes of a directory, which wait for the end of the walk. -/
def settleDir (path : LocalPath) (stat : RemoteStat) : List Touch :=
  stat.permissions.toList.flatMap (fun mode => setLocalMode windows path (mode &&& 0o777)) ++
    stat.mtime.toList.map fun mtime => ⟨path, .setMtime mtime⟩

def TreeEffect.touch? : TreeEffect → Option Touch
  | .touched touch => some touch
  | _ => none

def TreeEffect.settled : TreeEffect → List Touch
  | .attributes path stat => settleDir windows path stat
  | _ => []

/-- A tree, and how many of its items failed. -/
def getTree : List Touch × Nat :=
  let effects := treeEffects windows opts lumask answers root
  (effects.filterMap TreeEffect.touch? ++ effects.reverse.flatMap (TreeEffect.settled windows),
    effects.count .failed)

/-! ### The command -/

/-- What the operand expands to, with what the server answers about it. -/
structure RemoteSource where
  path : String
  stat : Option RemoteStat
  delivery : Delivery
  answers : Nat → DirAnswer

/-- The destination the user named, and whether it is a directory. -/
structure LocalTarget where
  path : LocalPath
  isDir : Bool

def RemoteSource.base (source : RemoteSource) : String :=
  String.ofList ((source.path.toList.splitOnP (· = '/')).getLast?.getD source.path.toList)

variable (cwd : LocalPath) (target : Option LocalTarget)

/-- Where a source lands: into a directory under its own name, or at the path that was named. -/
inductive Landing where
  | into (dir : LocalPath)
  | named (path : LocalPath)

def landing (multiple : Bool) : Landing :=
  match target, multiple with
  | some target, false => if target.isDir then .into target.path else .named target.path
  | some target, true => .into target.path
  | none, _ => .into cwd

def Landing.dest (base : String) : Landing → LocalPath
  | .into dir => dir ++ [base]
  | .named path => path

def Landing.baseLands : Landing → Bool
  | .into _ => true
  | .named _ => false

def getSource (multiple : Bool) (source : RemoteSource) : List Touch × Nat :=
  let lands := landing cwd target multiple
  if lands.baseLands && !isSafeEntryNameOn source.base windows then ([], 1)
  else if source.stat.any isDirStat then
    if !opts.recursive then ([], 1)
    else getTree windows opts lumask source.answers (lands.dest source.base)
  else
    let (touches, failed) :=
      getOne windows opts lumask (lands.dest source.base) source.stat source.delivery
    (touches, failed.toNat)

def batchOutcome (failed total : Nat) : Except String Unit :=
  if failed = 0 then .ok ()
  else .error (toString failed ++ " of " ++ toString total ++ " transfers failed")

def get (sources : List RemoteSource) : List Touch × Except String Unit :=
  let multiple := decide (sources.length > 1)
  let outcomes := sources.map (getSource windows opts lumask cwd target multiple)
  (outcomes.flatMap Prod.fst, batchOutcome (outcomes.map Prod.snd).sum sources.length)

end Oryxis

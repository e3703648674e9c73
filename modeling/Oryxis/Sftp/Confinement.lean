/-
This file proves what keeps a `get` inside the destination the user named.

Whatever a server answers, the walk through a tree ends, at most `maxDirDepth` levels
deep, and every name it joins onto a local path is a component of its own. On Unix
that is all. On Windows such a component may still be a device: the check does not
know all of them, and a scratch name that was cut to fit is not checked again.
-/

import Oryxis.Sftp.Get

namespace Oryxis

open Library List

/-! ### Inside -/

/-- A path that leads to the directory or to something below it. -/
def Within (windows : Bool) (root path : LocalPath) : Prop :=
  ∃ names below, path = root ++ names ∧ resolvePath windows names = some below

/-- A path that leads to an entry of the directory. -/
def DirectChild (windows : Bool) (dir path : LocalPath) : Prop :=
  ∃ names child, path = dir ++ names ∧ resolvePath windows names = some [child]

/-- The platform takes the name for a device. -/
def IsDevice (windows : Bool) (name : String) : Prop :=
  windows = true ∧ isWin32Device name.toList = true

variable {windows : Bool} {root dir path : LocalPath} {names : List String} {name : String}

/-- Names that are components of their own lead down, one directory each. -/
theorem resolvePath_of_plainName (plain : ∀ name ∈ names, PlainName windows name.toList)
    (start : LocalPath) : (∀ name ∈ names, ¬ IsDevice windows name) ∧
        names.foldlM (follow windows) start = some (start ++ names) ∨
      (∃ name ∈ names, IsDevice windows name) ∧ names.foldlM (follow windows) start = none := by
  induction names generalizing start with
  | nil => exact .inl ⟨by simp, by simp⟩
  | cons name names inductionHypothesis =>
    obtain ⟨here, others⟩ := forall_mem_cons.mp plain
    rw [foldlM_cons, follow_of_plainName here]
    by_cases device : IsDevice windows name
    · refine .inr ⟨⟨name, mem_cons_self .., device⟩, ?_⟩
      rw [device.1, device.2]
      rfl
    · have enters : (windows && isWin32Device name.toList) = false := by
        rw [← Bool.not_eq_true, Bool.and_eq_true]
        exact device
      rw [enters]
      simp only [Bool.false_eq_true, if_false, Option.bind_eq_bind, Option.bind_some]
      rcases inductionHypothesis others (start ++ [name]) with ⟨none, down⟩ | ⟨⟨other, member, is⟩, up⟩
      · exact .inl ⟨forall_mem_cons.mpr ⟨device, none⟩, by simpa using down⟩
      · exact .inr ⟨⟨other, mem_cons_of_mem _ member, is⟩, up⟩

theorem resolvePath_eq_some_iff (plain : ∀ name ∈ names, PlainName windows name.toList)
    {below : LocalPath} :
    resolvePath windows names = some below ↔ below = names ∧ ∀ name ∈ names, ¬ IsDevice windows name := by
  rcases resolvePath_of_plainName plain [] with ⟨none, down⟩ | ⟨⟨name, member, device⟩, up⟩
  · rw [resolvePath, down, Option.some.injEq, nil_append]
    exact ⟨fun same => ⟨same.symm, none⟩, fun both => both.1.symm⟩
  · rw [resolvePath, up]
    exact ⟨fun same => (by cases same), fun both => absurd device (both.2 name member)⟩

theorem within_iff (plain : ∀ name ∈ names, PlainName windows name.toList) :
    Within windows root (root ++ names) ↔ ∀ name ∈ names, ¬ IsDevice windows name := by
  constructor
  · rintro ⟨others, below, same, resolved⟩
    cases append_cancel_left same
    exact ((resolvePath_eq_some_iff plain).mp resolved).2
  · exact fun none => ⟨names, names, rfl, (resolvePath_eq_some_iff plain).mpr ⟨rfl, none⟩⟩

theorem directChild_iff (plain : PlainName windows name.toList) :
    DirectChild windows dir (dir ++ [name]) ↔ ¬ IsDevice windows name := by
  have plains : ∀ other ∈ [name], PlainName windows other.toList := by simpa using plain
  constructor
  · rintro ⟨others, child, same, resolved⟩
    cases append_cancel_left same
    exact ((resolvePath_eq_some_iff plains).mp resolved).2 name (mem_singleton_self _)
  · exact fun none => ⟨[name], name, rfl, (resolvePath_eq_some_iff plains).mpr ⟨rfl, by simpa using none⟩⟩

/-! ### One file -/

theorem partPath_append (dir : LocalPath) (name : String) :
    partPath (dir ++ [name]) = dir ++ [partName name] := by
  simp [partPath]

variable {stat : Option RemoteStat} {delivery : Delivery}

/-- The paths a download touches are its scratch file and its target. -/
theorem forall_getOne_iff {opts : XferOpts} {lumask : Nat} {dest : LocalPath}
    {holds : LocalPath → Prop} :
    (∀ touch ∈ (getOne windows opts lumask dest stat delivery).1, holds touch.path) ↔
      (delivery ≠ .refused → holds (partPath dest)) ∧
        (delivery = .unclaimed ∨ delivery = .delivered → holds dest) := by
  have mode : ∀ mode, ∀ touch ∈ setLocalMode windows dest mode, touch.path = dest := by
    intro mode touch member
    cases windows with
    | true => cases member
    | false =>
      rw [mem_singleton.mp member]
  cases delivery with
  | refused => simp [getOne, download]
  | stopped => simp [getOne, download]
  | unclaimed => simp [getOne, download]
  | delivered =>
    rw [getOne, if_pos rfl]
    simp only [forall_mem_append, mem_flatMap, forall_exists_index, and_imp]
    constructor
    · rintro ⟨⟨⟨moved, _⟩, _⟩, _⟩
      exact ⟨fun _ => moved ⟨partPath dest, .write⟩ (by simp [download]),
        fun _ => moved ⟨dest, .replace⟩ (by simp [download])⟩
    · rintro ⟨scratch, target⟩
      have here : holds dest := target (by simp)
      refine ⟨⟨⟨?_, ?_⟩, ?_⟩, ?_⟩
      · simpa [download] using ⟨scratch (by simp), here⟩
      · cases opts.fsync <;> simp [here]
      · intro touch bits _ member
        rw [mode bits touch member]
        exact here
      · cases opts.preserve <;> simp [here]

/-- No name a file of a directory is written under is a device. -/
def FileHolds (windows : Bool) (name : String) (delivery : Delivery) : Prop :=
  (delivery ≠ .refused → ¬ IsDevice windows (partName name)) ∧
    (delivery = .unclaimed ∨ delivery = .delivered → ¬ IsDevice windows name)

theorem forall_getOne_within_iff {opts : XferOpts} {lumask : Nat}
    (plain : ∀ name ∈ names, PlainName windows name.toList)
    (clear : ∀ name ∈ names, ¬ IsDevice windows name) (named : PlainName windows name.toList) :
    (∀ touch ∈ (getOne windows opts lumask (root ++ names ++ [name]) stat delivery).1,
        Within windows root touch.path) ↔ FileHolds windows name delivery := by
  have inside : ∀ last : String, PlainName windows last.toList →
      (Within windows root (root ++ names ++ [last]) ↔ ¬ IsDevice windows last) := by
    intro last lastPlain
    rw [append_assoc, within_iff]
    · rw [forall_mem_append, and_iff_right clear]
      simp
    · rw [forall_mem_append]
      exact ⟨plain, by simpa using lastPlain⟩
  rw [forall_getOne_iff, partPath_append, inside _ named, inside _ named.partName, FileHolds]

/-! ### A tree -/

section Tree

variable {opts : XferOpts} {lumask : Nat} {answers : Nat → DirAnswer}

/-- No name is a device under which a directory is entered or a file written. -/
def EntryHolds (windows : Bool) (dir : PendingDir) (entry : SftpEntry) : Prop :=
  (entry.entersDir windows dir = true → ¬ IsDevice windows entry.name) ∧
    (isSafeEntryNameOn entry.name windows = true → entry.isSymlink = false → entry.isDir = false →
      isRegular entry.stat entry = true → FileHolds windows entry.name entry.delivery)

/-- No listing the walk is answered with has such a device. -/
def TreeHolds (windows : Bool) (opts : XferOpts) (lumask : Nat) (answers : Nat → DirAnswer)
    (root : LocalPath) : Prop :=
  ∀ count dir, (treeWalker windows opts lumask).Pops answers [⟨root, 0⟩] count dir →
    (answers count).created = true → ∀ entries, (answers count).entries = some entries →
      ∀ entry ∈ entries, EntryHolds windows dir entry

/-- A directory of the walk is below the root, one plain name for each level. -/
def BelowRoot (windows : Bool) (root : LocalPath) (dir : PendingDir) : Prop :=
  ∃ names, dir.path = root ++ names ∧ dir.depth = names.length ∧ dir.depth < maxDirDepth ∧
    ∀ name ∈ names, PlainName windows name.toList

variable {parent child : PendingDir} {answer : DirAnswer}

/-- A pushed directory is an entry of the listing that is gone into. -/
theorem mem_pushedDirs_iff :
    child ∈ pushedDirs windows parent answer ↔ answer.created = true ∧ ∃ entries,
      answer.entries = some entries ∧ ∃ entry ∈ entries, entry.entersDir windows parent = true ∧
        child = ⟨parent.path ++ [entry.name], parent.depth + 1⟩ := by
  unfold pushedDirs
  cases answer.created with
  | false => simp
  | true =>
    cases answer.entries with
    | none => simp
    | some entries =>
      simp only [if_true, Option.getD_some, mem_map, mem_filter, true_and,
        Option.some.injEq, exists_eq_left', and_assoc]
      exact exists_congr fun entry => and_congr_right fun _ => and_congr_right fun _ => eq_comm

theorem safe_of_enters {dir : PendingDir} {entry : SftpEntry}
    (enters : entry.entersDir windows dir = true) :
    isSafeEntryNameOn entry.name windows = true ∧ dir.depth + 1 < maxDirDepth := by
  simp only [SftpEntry.entersDir, Bool.and_eq_true, decide_eq_true_eq] at enters
  exact ⟨enters.1.1.1, enters.2⟩

theorem belowRoot_of_pushed (below : BelowRoot windows root parent)
    (pushed : child ∈ pushedDirs windows parent answer) :
    BelowRoot windows root child := by
  obtain ⟨names, isPath, isDepth, _, plain⟩ := below
  obtain ⟨_, entries, _, entry, _, enters, rfl⟩ := mem_pushedDirs_iff.mp pushed
  obtain ⟨isSafe, shallow⟩ := safe_of_enters enters
  refine ⟨names ++ [entry.name], ?_, ?_, shallow, ?_⟩
  · rw [isPath, append_assoc]
  · rw [isDepth, length_append]
    rfl
  · rw [forall_mem_append]
    exact ⟨plain, by simpa using plainName_of_safe isSafe⟩

/-- Every directory the walk pops is below its root. -/
theorem belowRoot_of_pops {count : Nat} {dir : PendingDir}
    (pops : (treeWalker windows opts lumask).Pops answers [⟨root, 0⟩] count dir) :
    BelowRoot windows root dir := by
  have handed : ∀ count parent, (treeWalker windows opts lumask).Pops answers [⟨root, 0⟩] count
      parent → BelowRoot windows root parent → ∀ child ∈ pushedDirs windows parent (answers count),
        BelowRoot windows root child := fun _ _ _ below _ pushed => belowRoot_of_pushed below pushed
  refine Walker.forall_stack ?_ handed count dir (Walker.mem_stack_of_pops pops)
  rintro _ member
  rw [mem_singleton.mp member]
  exact ⟨[], (append_nil root).symm, rfl, Nat.zero_lt_succ _, by simp⟩

theorem stack_treeSize : ((treeWalker windows opts lumask).run answers [⟨root, 0⟩]
    (treeSize windows opts lumask answers root)).stack = [] :=
  List.isEmpty_iff.mp (Nat.find_spec (tree_ends windows opts lumask answers root))

variable {effect : TreeEffect}

theorem mem_treeEffects_iff :
    effect ∈ treeEffects windows opts lumask answers root ↔ ∃ count dir,
      (treeWalker windows opts lumask).Pops answers [⟨root, 0⟩] count dir ∧
        effect ∈ dirEffects windows opts lumask dir (answers count) := by
  rw [treeEffects, Walker.mem_effects_iff]
  constructor
  · rintro ⟨count, _, dir, pops, member⟩
    exact ⟨count, dir, pops, member⟩
  · rintro ⟨count, dir, pops, member⟩
    exact ⟨count, Walker.lt_of_pops stack_treeSize pops, dir, pops, member⟩

variable {touch : Touch}

/-- The paths a directory of the walk touches: its own, and those of its files. -/
theorem touched_mem_dirEffects_iff {dir : PendingDir} :
    .touched touch ∈ dirEffects windows opts lumask dir answer ↔
      touch = ⟨dir.path, .createDir⟩ ∨ answer.created = true ∧ ∃ entries,
        answer.entries = some entries ∧ ∃ entry ∈ entries,
          isSafeEntryNameOn entry.name windows = true ∧ entry.isSymlink = false ∧
            entry.isDir = false ∧ isRegular entry.stat entry = true ∧
              touch ∈ (getOne windows opts lumask (dir.path ++ [entry.name]) (some entry.stat)
                entry.delivery).1 := by
  have each : ∀ entry, .touched touch ∈ entryEffects windows opts lumask dir entry ↔
      isSafeEntryNameOn entry.name windows = true ∧ entry.isSymlink = false ∧
        entry.isDir = false ∧ isRegular entry.stat entry = true ∧
          touch ∈ (getOne windows opts lumask (dir.path ++ [entry.name]) (some entry.stat)
            entry.delivery).1 := by
    intro entry
    unfold entryEffects
    split <;> [simp_all; split] <;> [simp_all; split]
    · split <;> simp_all
    · split <;> simp_all
  rw [dirEffects, mem_cons]
  refine or_congr (by simp) ?_
  cases answer.created with
  | false => simp
  | true =>
    cases answer.entries with
    | none => cases opts.preserve <;> simp
    | some entries => cases opts.preserve <;> simp [each]

/-- The attributes that wait for the end of the walk are the directory's own. -/
theorem path_of_mem_settled {dir : PendingDir}
    (member : effect ∈ dirEffects windows opts lumask dir answer)
    (settles : touch ∈ effect.settled windows) : touch.path = dir.path := by
  cases effect with
  | touched touch => cases settles
  | failed => cases settles
  | attributes path stat =>
    have noEntry : ∀ entry, .attributes path stat ∉ entryEffects windows opts lumask dir entry := by
      intro entry
      unfold entryEffects
      repeat' split
      all_goals simp
    have isPath : path = dir.path := by
      simp only [dirEffects, mem_cons, reduceCtorEq, false_or] at member
      split at member
      · simp at member
      · rcases mem_append.mp member with own | listed
        · split at own
          · obtain ⟨_, _, same⟩ := mem_map.mp own
            cases same
            rfl
          · cases own
        · split at listed
          · simp at listed
          · obtain ⟨entry, _, isEntry⟩ := mem_flatMap.mp listed
            exact absurd isEntry (noEntry entry)
    rw [← isPath]
    unfold TreeEffect.settled settleDir setLocalMode at settles
    cases windows <;> simp only [mem_append, mem_flatMap, mem_map] at settles <;>
      grind

/-- The paths of a tree are those its directories touch. -/
theorem forall_getTree_iff {holds : LocalPath → Prop} :
    (∀ touch ∈ (getTree windows opts lumask answers root).1, holds touch.path) ↔
      ∀ count dir, (treeWalker windows opts lumask).Pops answers [⟨root, 0⟩] count dir →
        ∀ touch, .touched touch ∈ dirEffects windows opts lumask dir (answers count) →
          holds touch.path := by
  simp only [getTree, forall_mem_append, mem_filterMap, mem_flatMap,
    mem_reverse, mem_treeEffects_iff]
  constructor
  · rintro ⟨touches, _⟩ count dir pops touch member
    exact touches touch ⟨_, ⟨count, dir, pops, member⟩, rfl⟩
  · intro each
    constructor
    · rintro touch ⟨effect, ⟨count, dir, pops, member⟩, isTouch⟩
      cases effect with
      | touched other =>
        cases isTouch
        exact each count dir pops touch member
      | _ => cases isTouch
    · rintro touch ⟨effect, ⟨count, dir, pops, member⟩, settles⟩
      rw [path_of_mem_settled member settles]
      exact each count dir pops ⟨dir.path, .createDir⟩ (mem_cons_self ..)

/-- A tree stays below its root exactly when no listing has such a device. -/
theorem within_getTree_iff :
    (∀ touch ∈ (getTree windows opts lumask answers root).1, Within windows root touch.path) ↔
      TreeHolds windows opts lumask answers root := by
  rw [forall_getTree_iff]
  constructor
  · intro inside count dir pops created entries listing entry listed
    have clear : ∀ dir, (∃ index, (treeWalker windows opts lumask).Pops answers [⟨root, 0⟩] index
        dir) → ∀ names, dir.path = root ++ names → (∀ name ∈ names, PlainName windows name.toList) →
          ∀ name ∈ names, ¬ IsDevice windows name := by
      rintro dir ⟨index, pops⟩ names isPath plain
      have own := inside index dir pops ⟨dir.path, .createDir⟩ (mem_cons_self ..)
      rw [isPath, within_iff plain] at own
      exact own
    obtain ⟨names, isPath, _, _, plain⟩ := belowRoot_of_pops pops
    have here := clear dir ⟨count, pops⟩ names isPath plain
    constructor
    · intro enters
      have pushed := mem_pushedDirs_iff.mpr ⟨created, entries, listing, entry, listed, enters, rfl⟩
      obtain ⟨index, _, later⟩ := Walker.pops_of_pushed stack_treeSize pops pushed
      have isSafe := (safe_of_enters enters).1
      refine clear _ ⟨index, later⟩ (names ++ [entry.name]) ?_ ?_ entry.name (by simp)
      · rw [isPath, append_assoc]
      · rw [forall_mem_append]
        exact ⟨plain, by simpa using plainName_of_safe isSafe⟩
    · intro isSafe noLink noDir regular
      have files : ∀ touch ∈ (getOne windows opts lumask (root ++ names ++ [entry.name])
          (some entry.stat) entry.delivery).1, Within windows root touch.path := by
        intro touch member
        rw [← isPath] at member
        exact inside count dir pops touch (touched_mem_dirEffects_iff.mpr (.inr ⟨created, entries,
          listing, entry, listed, isSafe, noLink, noDir, regular, member⟩))
      exact (forall_getOne_within_iff plain here (plainName_of_safe isSafe)).mp files
  · intro holds
    -- No name on the way down to a directory of the walk is a device.
    let clearBelow (dir : PendingDir) : Prop := ∃ names, dir.path = root ++ names ∧
      (∀ name ∈ names, PlainName windows name.toList) ∧ ∀ name ∈ names, ¬ IsDevice windows name
    have handed : ∀ count parent, (treeWalker windows opts lumask).Pops answers [⟨root, 0⟩] count
        parent → clearBelow parent → ∀ child ∈ pushedDirs windows parent (answers count),
          clearBelow child := by
      rintro count parent pops ⟨names, isPath, plain, none⟩ child pushed
      obtain ⟨created, entries, listing, entry, listed, enters, rfl⟩ := mem_pushedDirs_iff.mp pushed
      have noDevice := (holds count parent pops created entries listing entry listed).1 enters
      refine ⟨names ++ [entry.name], ?_, ?_, ?_⟩
      · rw [isPath, append_assoc]
      · rw [forall_mem_append]
        exact ⟨plain, by simpa using plainName_of_safe (safe_of_enters enters).1⟩
      · rw [forall_mem_append]
        exact ⟨none, by simpa using noDevice⟩
    have clear : ∀ count dir, (treeWalker windows opts lumask).Pops answers [⟨root, 0⟩] count dir →
        clearBelow dir := by
      intro count dir pops
      refine Walker.forall_stack ?_ handed count dir (Walker.mem_stack_of_pops pops)
      rintro _ member
      rw [mem_singleton.mp member]
      exact ⟨[], (append_nil root).symm, by simp, by simp⟩
    intro count dir pops touch member
    obtain ⟨names, isPath, plain, none⟩ := clear count dir pops
    rcases touched_mem_dirEffects_iff.mp member with rfl | ⟨created, entries, listing, entry, listed,
      isSafe, noLink, noDir, regular, touched⟩
    · rw [isPath, within_iff plain]
      exact none
    · rw [isPath] at touched
      exact (forall_getOne_within_iff plain none (plainName_of_safe isSafe)).mpr
        ((holds count dir pops created entries listing entry listed).2 isSafe noLink noDir regular)
        touch touched

end Tree

/-! ### The command -/

section Command

variable (windows) (opts : XferOpts) (lumask : Nat) (cwd : LocalPath) (target : Option LocalTarget)

/-- A path inside the destination: an entry of the directory a file goes into, or below the root of
the tree. A file whose destination is named has that path and the scratch file beside it. -/
def Confined (lands : Landing) (base : String) (isTree : Bool) (path : LocalPath) : Prop :=
  match lands, isTree with
  | .into dir, false => DirectChild windows dir path
  | .into dir, true => DirectChild windows dir (dir ++ [base]) ∧ Within windows (dir ++ [base]) path
  | .named named, false => path = named ∨ path = partPath named
  | .named named, true => Within windows named path

def RemoteSource.isTree (source : RemoteSource) : Bool := source.stat.any isDirStat

/-- What is fetched of a source stays inside its destination, and the walk through a tree ends at
most `maxDirDepth` levels deep. -/
structure StaysInside (multiple : Bool) (source : RemoteSource) : Prop where
  confined : ∀ touch ∈ (getSource windows opts lumask cwd target multiple source).1,
    Confined windows (landing cwd target multiple) source.base source.isTree touch.path
  ends : ∃ count, ((treeWalker windows opts lumask).run source.answers
    [⟨(landing cwd target multiple).dest source.base, 0⟩] count).stack = []
  shallow : ∀ count dir, (treeWalker windows opts lumask).Pops source.answers
    [⟨(landing cwd target multiple).dest source.base, 0⟩] count dir →
      ∃ names, dir.path = (landing cwd target multiple).dest source.base ++ names ∧
        names.length < maxDirDepth

/-- No device is among the names that are fetched of a source, scratch names included. -/
def SourceHolds (multiple : Bool) (source : RemoteSource) : Prop :=
  let lands := landing cwd target multiple
  (lands.baseLands = true → isSafeEntryNameOn source.base windows = true) →
    if source.isTree then
      opts.recursive = true → (lands.baseLands = true → ¬ IsDevice windows source.base) ∧
        TreeHolds windows opts lumask source.answers (lands.dest source.base)
    else lands.baseLands = true → FileHolds windows source.base source.delivery

variable {windows opts lumask cwd target} {multiple : Bool} {source : RemoteSource}

theorem root_mem_getTree (answers : Nat → DirAnswer) (root : LocalPath) :
    ∃ touch ∈ (getTree windows opts lumask answers root).1, touch.path = root := by
  have atStart : (treeWalker windows opts lumask).Pops answers [⟨root, 0⟩] 0 ⟨root, 0⟩ := rfl
  refine ⟨⟨root, .createDir⟩, ?_, rfl⟩
  rw [getTree, mem_append, mem_filterMap]
  exact .inl ⟨_, mem_treeEffects_iff.mpr ⟨0, _, atStart, mem_cons_self ..⟩, rfl⟩

/-- The paths of a source are inside its destination exactly when none of its names is a device. -/
theorem confined_getSource_iff :
    (∀ touch ∈ (getSource windows opts lumask cwd target multiple source).1,
        Confined windows (landing cwd target multiple) source.base source.isTree touch.path) ↔
      SourceHolds windows opts lumask cwd target multiple source := by
  unfold getSource SourceHolds
  generalize landing cwd target multiple = lands
  simp only []
  rw [show source.stat.any isDirStat = source.isTree from rfl]
  by_cases refused : lands.baseLands = true ∧ isSafeEntryNameOn source.base windows = false
  · rw [if_pos (by simp [refused])]
    refine iff_of_true (by simp) fun isSafe => ?_
    rw [isSafe refused.1] at refused
    cases refused.2
  · rw [if_neg (by simpa using refused)]
    have isSafe : lands.baseLands = true → isSafeEntryNameOn source.base windows = true := by
      intro baseLands
      rw [← Bool.not_eq_false]
      exact fun notSafe => refused ⟨baseLands, notSafe⟩
    rw [forall_prop_of_true isSafe]
    cases source.isTree with
    | false =>
      simp only [Bool.false_eq_true, if_false]
      rw [forall_getOne_iff]
      cases lands with
      | named path =>
        refine iff_of_true ⟨fun _ => .inr rfl, fun _ => .inl rfl⟩ fun baseLands => ?_
        cases baseLands
      | into dir =>
        have plain := plainName_of_safe (isSafe rfl)
        simp only [Landing.dest, Landing.baseLands, forall_const]
        rw [partPath_append, Confined, Confined, directChild_iff plain,
          directChild_iff plain.partName, FileHolds]
    | true =>
      simp only [if_true]
      cases opts.recursive with
      | false => simp
      | true =>
        simp only [Bool.not_true, Bool.false_eq_true, if_false, forall_const]
        cases lands with
        | named path =>
          refine within_getTree_iff.trans ⟨fun holds => ⟨fun baseLands => ?_, holds⟩, And.right⟩
          cases baseLands
        | into dir =>
          simp only [Landing.dest, Landing.baseLands, forall_const, Confined]
          rw [directChild_iff (plainName_of_safe (isSafe rfl)), ← within_getTree_iff]
          have rooted : ∃ touch ∈ (getTree windows opts lumask source.answers
              (dir ++ [source.base])).1, touch.path = dir ++ [source.base] := root_mem_getTree _ _
          obtain ⟨touch, member, _⟩ := rooted
          exact ⟨fun both => ⟨(both touch member).1, fun other here => (both other here).2⟩,
            fun both other here => ⟨both.1, both.2 other here⟩⟩

end Command

/-- A file of that name, which arrives. -/
def servedFile (name : String) : RemoteSource where
  path := name
  stat := none
  delivery := .delivered
  answers _ := ⟨false, none, none⟩

/-- A name that is no device, until it is cut to fit the suffix of the scratch file. -/
def paddedDevice : List Char := "CON".toList ++ List.replicate 240 ' ' ++ ['x']

theorem not_staysInside_of_device {name : String}
    (safe : isSafeEntryNameOn name true = true)
    (device : isWin32Device (partName name).toList = true) :
    ¬ StaysInside true ⟨false, false, false⟩ 0o022 ["home"] none false (servedFile name) := by
  intro stays
  have noSlash : ∀ letter ∈ name.toList, decide (letter = '/') = false := by
    intro letter member
    have plain := (plainName_of_safe safe).noSeparator letter member
    simp only [isSeparator, Bool.or_eq_false_iff] at plain
    exact plain.1
  have isName : (servedFile name).base = name := by
    rw [RemoteSource.base, servedFile, splitOnP_eq_singleton noSlash]
    simp
  have holds := confined_getSource_iff.mp stays.confined
  rw [SourceHolds, isName] at holds
  exact (holds (fun _ => safe) rfl).1 (by simp [servedFile]) ⟨rfl, device⟩

end Oryxis

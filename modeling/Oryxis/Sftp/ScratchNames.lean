/-
This file is the scratch path beside a target: a local path, which is bytes with slashes,
and a remote one, which is text with slashes.

A scratch is good when it lies in the directory of its target, is not the target, and has a
name that fits. A local scratch gets into another directory where something follows the
name of its target, a remote one where a long name stands alone. A name that has the suffix
already, and is as long as a name can be, is its own scratch.
-/

import Oryxis.Sftp.EntryNames

namespace Oryxis.Scratch

open Library List

/-! ### Local paths -/

def slash : UInt8 := 0x2F

def currentDir : List UInt8 := [0x2E]

def parentDir : List UInt8 := [0x2E, 0x2E]

/-- A segment that is no component: an empty one, or a dot. -/
def isBlank (segment : List UInt8) : Bool := segment = [] || segment = currentDir

/-- The components of the segments. A dot that they begin with is one. -/
def componentsOf : List (List UInt8) → List (List UInt8)
  | [] => []
  | first :: rest => (if first = [] then [] else [first]) ++ rest.filter fun segment => !isBlank segment

def components (path : List UInt8) : List (List UInt8) := componentsOf (path.splitOn slash)

def hasRoot (path : List UInt8) : Bool := path.head? = some slash

def fileName (path : List UInt8) : Option (List UInt8) :=
  match (components path).getLast? with
  | none => none
  | some name => if name = currentDir ∨ name = parentDir then none else some name

def dropBlanks (segments : List (List UInt8)) : List (List UInt8) := segments.rdropWhile isBlank

/-- The segments of a path without its last component. The root and a dot in front stay. -/
def parentSegments : List (List UInt8) → List (List UInt8)
  | [] => []
  | first :: rest =>
    if isBlank first then first :: dropBlanks (dropBlanks rest).dropLast
    else dropBlanks (dropBlanks (first :: rest)).dropLast

/-- A path that has a file name, with another one. -/
def withFileName (path name : List UInt8) : List UInt8 :=
  [slash].intercalate (parentSegments (path.splitOn slash) ++ [name])

def suffixBytes : List UInt8 := utf8Bytes partSuffix.toList

/-- The scratch path of a download. -/
def partPathOf (path : List UInt8) : List UInt8 :=
  if ((fileName path).getD []).length + suffixBytes.length ≤ nameMax then path ++ suffixBytes
  else
    withFileName path
      (utf8Bytes (fitPartName (fromUtf8Lossy ((fileName path).getD []))).toList)

/-! ### Remote paths -/

/-- What stands behind the last slash. -/
def remoteName (text : List Char) : List Char := (text.reverse.takeWhile (· ≠ '/')).reverse

/-- What stands before it, with the slash. -/
def remoteDir (text : List Char) : List Char := (text.reverse.dropWhile (· ≠ '/')).reverse

/-- A text cut in two at its last slash. -/
def rsplitSlash (text : List Char) : Option (List Char × List Char) :=
  if remoteDir text = [] then none else some ((remoteDir text).dropLast, remoteName text)

/-- The scratch path of an upload. -/
def remotePartPath (remote : String) : String :=
  let parts := (rsplitSlash remote.toList).getD ([], remote.toList)
  if utf8Len parts.2 + utf8Len partSuffix.toList ≤ nameMax then remote ++ partSuffix
  else String.ofList parts.1 ++ "/" ++ fitPartName (String.ofList parts.2)

/-! ### What should hold -/

/-- A local path with a last component that fits. -/
structure LocalTarget where
  path : List UInt8
  name : List UInt8
  isLast : (components path).getLast? = some name
  short : name.length ≤ nameMax

/-- A remote path with a last component that fits. -/
structure RemoteTarget where
  path : String
  some : remoteName path.toList ≠ []
  short : utf8Len (remoteName path.toList) ≤ nameMax

/-- Another path in the same directory, with a name that fits. -/
structure LocalTarget.HasScratch (target : LocalTarget) (scratch : List UInt8) : Prop where
  sameRoot : hasRoot scratch = hasRoot target.path
  sameDirectory : (components scratch).dropLast = (components target.path).dropLast
  different : components scratch ≠ components target.path
  fits : ∃ name, (components scratch).getLast? = Option.some name ∧ name.length ≤ nameMax

structure RemoteTarget.HasScratch (target : RemoteTarget) (scratch : String) : Prop where
  sameDirectory : remoteDir scratch.toList = remoteDir target.path.toList
  different : scratch ≠ target.path
  fits : remoteName scratch.toList ≠ [] ∧ utf8Len (remoteName scratch.toList) ≤ nameMax

/-- A name that the suffix does not fit behind. -/
def TooLong (length : Nat) : Prop := nameMax < length + utf8Len partSuffix.toList

/-- As long as a name can be, with the suffix at its end. -/
def IsOwnScratch (name : List Char) : Prop :=
  ∃ base, utf8Len base + utf8Len partSuffix.toList = nameMax ∧ name = base ++ partSuffix.toList

/-- The last slash of a path has nothing or a dot behind it. -/
def Trails (path : List UInt8) : Prop :=
  ∃ before last, path.splitOn slash = before ++ [last] ∧ before ≠ [] ∧ isBlank last

/-! ### Names that are cut to fit -/

theorem utf8Len_reverse (letters : List Char) : utf8Len letters.reverse = utf8Len letters := by
  rw [utf8Len, map_reverse, sum_reverse, utf8Len]

theorem utf8Len_popToFit_le (budget : Nat) (letters : List Char) :
    utf8Len (popToFit budget letters) ≤ budget := by
  induction letters with
  | nil => exact Nat.zero_le _
  | cons last others inductionHypothesis =>
    rw [popToFit]
    split
    · assumption
    · exact inductionHypothesis

theorem popToFit_append {budget : Nat} {kept : List Char} (exactly : utf8Len kept = budget)
    (dropped : List Char) : popToFit budget (dropped ++ kept) = kept := by
  induction dropped with
  | nil =>
    cases kept with
    | nil => rfl
    | cons last others => exact if_pos (Nat.le_of_eq exactly)
  | cons last dropped inductionHypothesis =>
    have more : ¬ utf8Len (last :: (dropped ++ kept)) ≤ budget := by
      have positive := last.utf8Size_pos
      rw [← cons_append, utf8Len_append, utf8Len, map_cons, sum_cons]
      omega
    rw [cons_append, popToFit, if_neg more]
    exact inductionHypothesis

/-- The letter before what was kept does not fit. -/
theorem budget_lt_of_popToFit {budget : Nat} {dropped kept : List Char} {last : Char}
    (cut : popToFit budget (dropped ++ last :: kept) = kept) :
    budget < last.utf8Size + utf8Len kept := by
  induction dropped with
  | nil =>
    rw [nil_append, popToFit] at cut
    split at cut
    · have lengths := congrArg List.length cut
      rw [length_cons] at lengths
      omega
    · rename_i long
      rw [utf8Len, map_cons, sum_cons] at long
      exact Nat.not_le.mp long
  | cons first dropped inductionHypothesis =>
    rw [cons_append, popToFit] at cut
    split at cut
    · have lengths := congrArg List.length cut
      rw [length_cons, length_append, length_cons] at lengths
      omega
    · exact inductionHypothesis cut

theorem utf8Len_partSuffix : utf8Len partSuffix.toList = 12 := by decide

theorem toList_fitPartName (name : String) : (fitPartName name).toList =
    (popToFit (nameMax - utf8Len partSuffix.toList) name.toList.reverse).reverse ++
      partSuffix.toList := by
  rw [fitPartName, String.toList_append, String.toList_ofList]

theorem utf8Len_fitPartName_le (name : String) : utf8Len (fitPartName name).toList ≤ nameMax := by
  have fits := utf8Len_popToFit_le (nameMax - utf8Len partSuffix.toList) name.toList.reverse
  rw [toList_fitPartName, utf8Len_append, utf8Len_reverse]
  rw [utf8Len_partSuffix, nameMax] at *
  omega

/-- A name that is cut and gets the suffix is the name itself only where it has the suffix, and is
as long as it can be. -/
theorem fitPartName_eq_iff (name : String) :
    (fitPartName name).toList = name.toList ↔ IsOwnScratch name.toList := by
  rw [toList_fitPartName]
  constructor
  · intro same
    refine ⟨_, ?_, same.symm⟩
    have fits := utf8Len_popToFit_le (nameMax - utf8Len partSuffix.toList) name.toList.reverse
    have parts : name.toList.reverse = "oryxis-part".toList.reverse ++
        '.' :: popToFit (nameMax - utf8Len partSuffix.toList) name.toList.reverse := by
      have reversed := congrArg List.reverse same
      rw [reverse_append, reverse_reverse] at reversed
      exact reversed.symm
    have long := @budget_lt_of_popToFit (nameMax - utf8Len partSuffix.toList) "oryxis-part".toList.reverse
      (popToFit (nameMax - utf8Len partSuffix.toList) name.toList.reverse) '.'
      (congrArg _ parts.symm)
    have dot : ('.' : Char).utf8Size = 1 := rfl
    rw [dot] at long
    rw [utf8Len_reverse]
    rw [utf8Len_partSuffix, nameMax] at *
    omega
  · rintro ⟨base, exactly, isName⟩
    have length : utf8Len base.reverse = nameMax - utf8Len partSuffix.toList := by
      rw [utf8Len_reverse]
      omega
    rw [isName, reverse_append, popToFit_append length, reverse_reverse]

/-! ### Remote scratch paths -/

variable (text : List Char)

theorem remoteDir_append_remoteName :
    remoteDir text ++ remoteName text = text := by
  rw [remoteDir, remoteName, ← reverse_append, takeWhile_append_dropWhile,
    reverse_reverse]

theorem slash_notMem_remoteName : '/' ∉ remoteName text := by
  intro member
  have letter := mem_takeWhile_imp (mem_reverse.mp member)
  simp at letter

/-- A text with nothing in front of its name, or a slash. -/
theorem parts_of_append {dir name : List Char} (noSlash : '/' ∉ name)
    (ends : dir = [] ∨ ∃ before, dir = before ++ ['/']) :
    remoteDir (dir ++ name) = dir ∧ remoteName (dir ++ name) = name := by
  have letters : ∀ letter ∈ name.reverse, decide (letter ≠ '/') = true := by
    intro letter member
    refine decide_eq_true fun isSlash => noSlash ?_
    exact isSlash ▸ mem_reverse.mp member
  rw [remoteDir, remoteName, reverse_append]
  rw [takeWhile_append_of_pos letters, dropWhile_append_of_pos letters]
  rcases ends with rfl | ⟨before, rfl⟩
  · simp
  · simp

/-- What stands before the name is nothing, or ends in a slash. -/
theorem remoteDir_ends :
    remoteDir text = [] ∨ ∃ before, remoteDir text = before ++ ['/'] := by
  unfold remoteDir
  cases rest : text.reverse.dropWhile (· ≠ '/') with
  | nil => exact .inl rfl
  | cons first others =>
    have isSlash : first = '/' := by
      have stopped := head?_dropWhile_not (fun letter => decide (letter ≠ '/')) text.reverse
      rw [rest] at stopped
      simpa using stopped
    exact .inr ⟨others.reverse, by rw [reverse_cons, isSlash]⟩

theorem rsplitSlash_spec :
    ((rsplitSlash text).getD ([], text)).2 = remoteName text ∧
      ((rsplitSlash text).getD ([], text)).1 ++ ['/'] =
        if remoteDir text = [] then ['/'] else remoteDir text := by
  unfold rsplitSlash
  split
  · rename_i alone
    refine ⟨?_, rfl⟩
    have whole := remoteDir_append_remoteName text
    rw [alone, nil_append] at whole
    exact whole.symm
  · rename_i below
    obtain ⟨before, isDir⟩ := (remoteDir_ends text).resolve_left below
    refine ⟨rfl, ?_⟩
    rw [isDir]
    exact congrArg (· ++ ['/']) dropLast_concat

theorem remotePartPath_of_fits {remote : String}
    (fits : ¬ TooLong (utf8Len (remoteName remote.toList))) :
    (remotePartPath remote).toList =
      remoteDir remote.toList ++ (remoteName remote.toList ++ partSuffix.toList) := by
  unfold remotePartPath
  dsimp only
  rw [(rsplitSlash_spec remote.toList).1, if_pos (Nat.not_lt.mp fits), String.toList_append,
    ← append_assoc, remoteDir_append_remoteName]

theorem remotePartPath_of_tooLong {remote : String}
    (long : TooLong (utf8Len (remoteName remote.toList))) :
    (remotePartPath remote).toList =
      (if remoteDir remote.toList = [] then ['/'] else remoteDir remote.toList) ++
        (fitPartName (String.ofList (remoteName remote.toList))).toList := by
  obtain ⟨isName, isDir⟩ := rsplitSlash_spec remote.toList
  unfold remotePartPath
  dsimp only
  rw [isName, if_neg (Nat.not_le.mpr long), String.toList_append, String.toList_append,
    String.toList_ofList, ← isDir]
  rfl

theorem tooLong_of_isOwnScratch {name : List Char} (own : IsOwnScratch name) :
    TooLong (utf8Len name) := by
  obtain ⟨base, exactly, rfl⟩ := own
  rw [TooLong, utf8Len_append, utf8Len_partSuffix, nameMax] at *
  omega

theorem slash_notMem_partSuffix : '/' ∉ partSuffix.toList := by decide

theorem slash_notMem_fitPartName {name : String} (noSlash : '/' ∉ name.toList) :
    '/' ∉ (fitPartName name).toList := by
  rw [toList_fitPartName, mem_append, not_or]
  refine ⟨fun member => noSlash ?_, slash_notMem_partSuffix⟩
  exact mem_reverse.mp ((popToFit_isSuffix _ _).mem (mem_reverse.mp member))

theorem fitPartName_ne_nil (name : String) : (fitPartName name).toList ≠ [] := by
  rw [toList_fitPartName]
  exact append_ne_nil_of_right_ne_nil _ (by decide)

theorem RemoteTarget.hasScratch_iff (target : RemoteTarget) :
    target.HasScratch (remotePartPath target.path) ↔
      (TooLong (utf8Len (remoteName target.path.toList)) → remoteDir target.path.toList ≠ []) ∧
        ¬ IsOwnScratch (remoteName target.path.toList) := by
  have noSlash := slash_notMem_remoteName target.path.toList
  have ends := remoteDir_ends target.path.toList
  have whole := remoteDir_append_remoteName target.path.toList
  by_cases long : TooLong (utf8Len (remoteName target.path.toList))
  · have isScratch := remotePartPath_of_tooLong long
    have noSlashCut := @slash_notMem_fitPartName (String.ofList (remoteName target.path.toList))
      (by rwa [String.toList_ofList])
    by_cases alone : remoteDir target.path.toList = []
    · refine iff_of_false (fun good => ?_) fun condition => condition.1 long alone
      have same := good.sameDirectory
      rw [if_pos alone] at isScratch
      rw [isScratch, (@parts_of_append ['/'] _ noSlashCut (.inr ⟨[], rfl⟩)).1, alone] at same
      cases same
    · rw [if_neg alone] at isScratch
      obtain ⟨isDir, isName⟩ := parts_of_append noSlashCut ends
      rw [← isScratch] at isDir isName
      have own := fitPartName_eq_iff (String.ofList (remoteName target.path.toList))
      rw [String.toList_ofList] at own
      rw [← own]
      constructor
      · refine fun good => ⟨fun _ => alone, fun same => good.different (String.toList_inj.mp ?_)⟩
        rw [isScratch, same, whole]
      · refine fun condition => ⟨isDir, fun same => condition.2 ?_, ?_, ?_⟩
        · rw [← isName, same]
        · rw [isName]
          exact fitPartName_ne_nil _
        · rw [isName]
          exact utf8Len_fitPartName_le _
  · have isScratch := remotePartPath_of_fits long
    have noSlashLong : '/' ∉ remoteName target.path.toList ++ partSuffix.toList := by
      rw [mem_append, not_or]
      exact ⟨noSlash, slash_notMem_partSuffix⟩
    obtain ⟨isDir, isName⟩ := parts_of_append noSlashLong ends
    rw [← isScratch] at isDir isName
    refine iff_of_true ⟨isDir, fun same => ?_, ?_, ?_⟩
      ⟨fun tooLong => absurd tooLong long, fun own => long (tooLong_of_isOwnScratch own)⟩
    · rw [same] at isName
      have lengths := congrArg List.length isName
      rw [length_append] at lengths
      have suffix : partSuffix.toList.length = 12 := by decide
      omega
    · rw [isName]
      exact append_ne_nil_of_left_ne_nil target.some _
    · rw [isName, utf8Len_append]
      exact Nat.not_lt.mp long

/-! ### The segments of a local path -/

variable {path : List UInt8}

theorem slash_notMem_of_mem_splitOn {segment : List UInt8} (member : segment ∈ path.splitOn slash) :
    slash ∉ segment := by
  induction path generalizing segment with
  | nil =>
    rw [splitOn_nil, mem_singleton] at member
    rw [member]
    exact not_mem_nil
  | cons byte path inductionHypothesis =>
    rw [splitOn_cons_eq_if_modifyHead] at member
    split at member
    · rcases mem_cons.mp member with rfl | later
      · exact not_mem_nil
      · exact inductionHypothesis later
    · rename_i notSlash
      obtain ⟨first, others, isSplit⟩ := exists_cons_of_ne_nil (splitOn_ne_nil slash path)
      rw [isSplit, modifyHead_cons] at member
      rcases mem_cons.mp member with rfl | later
      · rw [mem_cons, not_or]
        refine ⟨fun isSlash => notSlash (beq_iff_eq.mpr isSlash.symm), ?_⟩
        exact inductionHypothesis (isSplit ▸ mem_cons_self ..)
      · exact inductionHypothesis (isSplit ▸ mem_cons_of_mem _ later)

theorem intercalate_concat_append (before : List (List UInt8)) (last more : List UInt8) :
    [slash].intercalate (before ++ [last]) ++ more =
      [slash].intercalate (before ++ [last ++ more]) := by
  induction before with
  | nil => simp
  | cons first before inductionHypothesis =>
    cases before with
    | nil => simp
    | cons second before =>
      rw [cons_append, cons_append, cons_append, intercalate_cons_cons,
        cons_append, intercalate_cons_cons, ← cons_append, ← cons_append,
        append_assoc, inductionHypothesis]

variable {last : List UInt8} {before : List (List UInt8)}

/-- More bytes without a slash come to the last segment. -/
theorem splitOn_append {more : List UInt8} (segments : path.splitOn slash = before ++ [last])
    (noSlash : slash ∉ more) :
    (path ++ more).splitOn slash = before ++ [last ++ more] := by
  have isPath : path = [slash].intercalate (before ++ [last]) := by
    rw [← segments, intercalate_splitOn]
  rw [isPath, intercalate_concat_append]
  refine splitOn_intercalate slash (fun segment member => ?_)
    (append_ne_nil_of_right_ne_nil _ (cons_ne_nil _ _))
  have each : ∀ other ∈ before ++ [last], slash ∉ other :=
    fun other isOther => slash_notMem_of_mem_splitOn (segments ▸ isOther)
  rcases mem_append.mp member with isBefore | isLast
  · exact each segment (mem_append_left _ isBefore)
  · rw [mem_singleton.mp isLast, mem_append, not_or]
    exact ⟨each last (mem_append_right _ (mem_singleton_self _)), noSlash⟩

/-- A last segment that is a component. -/
theorem componentsOf_concat (kept : isBlank last = false ∨ before = [] ∧ last ≠ []) :
    componentsOf (before ++ [last]) = componentsOf before ++ [last] := by
  cases before with
  | nil =>
    have some : last ≠ [] := by
      rcases kept with notBlank | ⟨_, some⟩
      · intro isEmpty
        rw [isEmpty] at notBlank
        cases notBlank
      · exact some
    show (if last = [] then [] else [last]) ++ [] = [last]
    rw [if_neg some, append_nil]
  | cons first before =>
    have notBlank := kept.resolve_right fun alone => by cases alone.1
    rw [cons_append, componentsOf, componentsOf, filter_append, append_assoc,
      filter_cons_of_pos (by rw [notBlank]; rfl), filter_nil]

/-- A last segment that is no component. -/
theorem componentsOf_concat_of_blank (some : before ≠ []) (blank : isBlank last = true) :
    componentsOf (before ++ [last]) = componentsOf before := by
  obtain ⟨first, others, rfl⟩ := exists_cons_of_ne_nil some
  rw [cons_append, componentsOf, componentsOf, filter_append,
    filter_cons_of_neg (by rw [blank]; decide), filter_nil, append_nil]

theorem isBlank_append_suffix (last : List UInt8) : isBlank (last ++ suffixBytes) = false := by
  have lengths : ∀ short : List UInt8, short.length < 12 → last ++ suffixBytes ≠ short := by
    intro short less same
    have isLength : suffixBytes.length = 12 := by rw [suffixBytes, length_utf8Bytes]; decide
    have := congrArg List.length same
    rw [length_append] at this
    omega
  simp only [isBlank, Bool.or_eq_false_iff, decide_eq_false_iff_not]
  exact ⟨lengths _ (by decide), lengths _ (by decide)⟩

theorem exists_lastSegment (path : List UInt8) :
    ∃ before last, path.splitOn slash = before ++ [last] :=
  ⟨_, _, (dropLast_append_getLast (splitOn_ne_nil slash path)).symm⟩

theorem hasRoot_append {more : List UInt8} (some : path ≠ []) :
    hasRoot (path ++ more) = hasRoot path := by
  obtain ⟨first, others, rfl⟩ := exists_cons_of_ne_nil some
  rfl

theorem slash_notMem_suffixBytes : slash ∉ suffixBytes := by
  intro member
  have isLetter : '/' ∈ partSuffix.toList := mem_of_mem_utf8Bytes member (by decide) rfl
  exact slash_notMem_partSuffix isLetter

variable (target : LocalTarget)

theorem LocalTarget.path_ne_nil : target.path ≠ [] := by
  intro isEmpty
  have isLast := target.isLast
  rw [isEmpty] at isLast
  cases isLast

theorem length_suffixBytes : suffixBytes.length = utf8Len partSuffix.toList :=
  length_utf8Bytes _

variable {dir : List (List UInt8)} {name : List UInt8}

/-- With another name in the same directory, it is the name that tells. -/
theorem LocalTarget.hasScratch_iff_ne {target : LocalTarget} {scratch : List UInt8}
    (root : hasRoot scratch = hasRoot target.path)
    (isTarget : components target.path = dir ++ [target.name])
    (isScratch : components scratch = dir ++ [name]) (short : name.length ≤ nameMax) :
    target.HasScratch scratch ↔ name ≠ target.name := by
  constructor
  · intro good same
    exact good.different (by rw [isScratch, isTarget, same])
  · intro differ
    refine ⟨root, ?_, fun same => differ ?_, name, ?_, short⟩
    · rw [isScratch, isTarget, dropLast_concat, dropLast_concat]
    · rw [isScratch, isTarget] at same
      exact singleton_inj.mp (append_cancel_left same)
    · rw [isScratch, getLast?_concat]

/-- The suffix behind the whole path. -/
theorem LocalTarget.hasScratch_append_iff (fits : target.name.length + suffixBytes.length ≤ nameMax) :
    target.HasScratch (target.path ++ suffixBytes) ↔ ¬ Trails target.path := by
  obtain ⟨before, last, segments⟩ := exists_lastSegment target.path
  have isLast := target.isLast
  have root := @hasRoot_append target.path suffixBytes target.path_ne_nil
  have isScratch : components (target.path ++ suffixBytes) =
      componentsOf before ++ [last ++ suffixBytes] := by
    rw [components, splitOn_append segments slash_notMem_suffixBytes]
    exact componentsOf_concat (.inl (isBlank_append_suffix last))
  by_cases trails : before ≠ [] ∧ isBlank last = true
  · refine iff_of_false (fun good => ?_)
      (not_not.mpr ⟨before, last, segments, trails.1, trails.2⟩)
    have isTarget : components target.path = componentsOf before := by
      rw [components, segments, componentsOf_concat_of_blank trails.1 trails.2]
    have same := good.sameDirectory
    rw [isScratch, dropLast_concat, ← isTarget] at same
    have some : components target.path ≠ [] := by
      intro isEmpty
      rw [isEmpty] at isLast
      cases isLast
    have lengths := congrArg List.length same
    have := length_pos_of_ne_nil some
    rw [length_dropLast] at lengths
    omega
  · have kept : isBlank last = false ∨ before = [] ∧ last ≠ [] := by
      by_cases alone : before = []
      · refine .inr ⟨alone, fun isEmpty => target.path_ne_nil ?_⟩
        rw [alone, isEmpty] at segments
        rw [← @intercalate_splitOn _ target.path _ _ slash, segments]
        rfl
      · exact .inl (Bool.eq_false_iff.mpr fun blank => trails ⟨alone, blank⟩)
    have isTarget : components target.path = componentsOf before ++ [last] := by
      rw [components, segments, componentsOf_concat kept]
    have isName : last = target.name := by
      rw [isTarget, getLast?_concat] at isLast
      exact Option.some.inj isLast
    have suffix : suffixBytes.length = 12 := by
      rw [length_suffixBytes, utf8Len_partSuffix]
    rw [isName] at isTarget isScratch
    rw [LocalTarget.hasScratch_iff_ne root isTarget isScratch (by rwa [length_append])]
    refine iff_of_true (fun same => ?_) ?_
    · have lengths := congrArg List.length same
      rw [length_append] at lengths
      omega
    · rintro ⟨others, other, isSplit, some, blank⟩
      rw [segments] at isSplit
      obtain ⟨rfl, isOther⟩ := append_inj' isSplit rfl
      exact trails ⟨some, singleton_inj.mp isOther ▸ blank⟩

/-! ### Another name in a local path -/

theorem filter_dropBlanks (segments : List (List UInt8)) :
    (dropBlanks segments).filter (fun segment => !isBlank segment) =
      segments.filter fun segment => !isBlank segment := by
  induction segments using List.reverseRecOn with
  | nil => rfl
  | append_singleton segments last inductionHypothesis =>
    unfold dropBlanks
    cases blank : isBlank last with
    | true =>
      rw [rdropWhile_concat_pos _ _ _ blank, filter_append,
        filter_cons_of_neg (by rw [blank]; decide), filter_nil, append_nil]
      exact inductionHypothesis
    | false => rw [rdropWhile_concat_neg _ _ _ (by rw [blank]; decide)]

/-- Without the last component. -/
theorem filter_dropLast_dropBlanks (segments : List (List UInt8)) :
    (dropBlanks segments).dropLast.filter (fun segment => !isBlank segment) =
      (segments.filter fun segment => !isBlank segment).dropLast := by
  induction segments using List.reverseRecOn with
  | nil => rfl
  | append_singleton segments last inductionHypothesis =>
    unfold dropBlanks
    cases blank : isBlank last with
    | true =>
      rw [rdropWhile_concat_pos _ _ _ blank, filter_append,
        filter_cons_of_neg (by rw [blank]; decide), filter_nil, append_nil]
      exact inductionHypothesis
    | false =>
      rw [rdropWhile_concat_neg _ _ _ (by rw [blank]; decide), dropLast_concat,
        filter_append, filter_cons_of_pos (by rw [blank]; decide), filter_nil,
        dropLast_concat]

variable {first : List UInt8}

variable (rest : List (List UInt8))

theorem parentSegments_of_blank (blank : isBlank first = true) :
    parentSegments (first :: rest) = first :: dropBlanks (dropBlanks rest).dropLast :=
  if_pos blank

theorem parentSegments_of_notBlank (notBlank : isBlank first = false) :
    parentSegments (first :: rest) = dropBlanks (dropBlanks (first :: rest)).dropLast :=
  if_neg (by rw [notBlank]; decide)

/-- What is left in front of the last component begins as the path does, or is nothing. -/
theorem parentSegments_begins (notBlank : isBlank first = false) :
    parentSegments (first :: rest) <+: first :: rest := by
  rw [parentSegments_of_notBlank rest notBlank]
  exact (List.rdropWhile_prefix ..).trans ((List.dropLast_prefix _).trans (List.rdropWhile_prefix ..))

theorem mem_of_mem_parentSegments {segments : List (List UInt8)} {segment : List UInt8}
    (member : segment ∈ parentSegments segments) : segment ∈ segments := by
  cases segments with
  | nil => cases member
  | cons first rest =>
    cases blank : isBlank first with
    | true =>
      rw [parentSegments_of_blank rest blank] at member
      refine mem_cons.mpr ((mem_cons.mp member).imp_right fun later => ?_)
      have within := (List.rdropWhile_prefix isBlank (dropBlanks rest).dropLast).mem later
      exact (List.rdropWhile_prefix isBlank rest).mem ((List.dropLast_prefix _).mem within)
    | false => exact (parentSegments_begins rest blank).mem member

/-- Segments whose first one is a component. -/
theorem componentsOf_eq_filter (notBlank : isBlank first = false) :
    componentsOf (first :: rest) = (first :: rest).filter fun segment => !isBlank segment := by
  have some : first ≠ [] := by
    intro isEmpty
    rw [isEmpty] at notBlank
    cases notBlank
  rw [componentsOf, if_neg some, filter_cons_of_pos (by rw [notBlank]; decide)]
  rfl

theorem componentsOf_parentSegments {segments : List (List UInt8)}
    (isComponents : componentsOf segments = dir ++ [name]) (normal : name ≠ currentDir) :
    componentsOf (parentSegments segments) = dir := by
  have isDir : (componentsOf segments).dropLast = dir := by
    rw [isComponents, dropLast_concat]
  cases segments with
  | nil => exact absurd isComponents.symm (append_ne_nil_of_right_ne_nil _ (cons_ne_nil _ _))
  | cons first rest =>
    cases blank : isBlank first with
    | true =>
      rw [parentSegments_of_blank rest blank, componentsOf, filter_dropBlanks,
        filter_dropLast_dropBlanks, ← isDir, componentsOf]
      refine (dropLast_append_of_ne_nil fun nothing => ?_).symm
      -- The only component would be the dot in front.
      rw [componentsOf, nothing, append_nil] at isComponents
      split at isComponents
      · exact absurd isComponents.symm
          (append_ne_nil_of_right_ne_nil _ (cons_ne_nil _ _))
      · rename_i some
        have isName := congrArg List.getLast? isComponents
        rw [getLast?_concat, getLast?_singleton] at isName
        rw [isBlank, Bool.or_eq_true, decide_eq_true_eq, decide_eq_true_eq] at blank
        exact normal ((Option.some.inj isName).symm.trans (blank.resolve_left some))
    | false =>
      rw [componentsOf_eq_filter rest blank] at isDir
      rw [← isDir]
      obtain ⟨more, whole⟩ := parentSegments_begins rest blank
      have filtered : (parentSegments (first :: rest)).filter (fun segment => !isBlank segment) =
          ((first :: rest).filter fun segment => !isBlank segment).dropLast := by
        rw [parentSegments_of_notBlank rest blank, filter_dropBlanks, filter_dropLast_dropBlanks]
      rw [← filtered]
      cases parent : parentSegments (first :: rest) with
      | nil => rfl
      | cons head others =>
        rw [parent, cons_append] at whole
        exact componentsOf_eq_filter others ((cons.inj whole).1 ▸ blank)

theorem hasRoot_intercalate {rest : List (List UInt8)} (noSlash : slash ∉ first) :
    hasRoot ([slash].intercalate (first :: rest)) = (decide (first = []) && decide (rest ≠ [])) := by
  cases first with
  | nil =>
    cases rest with
    | nil => rfl
    | cons second rest => rfl
  | cons byte first =>
    have plain : byte ≠ slash := fun isSlash => noSlash (isSlash ▸ mem_cons_self ..)
    have head : ([slash].intercalate ((byte :: first) :: rest)).head? = some byte := by
      cases rest <;> rfl
    rw [hasRoot, head]
    simp [plain]

/-- The path with another name lies in the same directory. -/
theorem components_withFileName {new : List UInt8} (isPath : components path = dir ++ [name])
    (normal : name ≠ currentDir) (noSlash : slash ∉ new) (notBlank : isBlank new = false) :
    components (withFileName path new) = dir ++ [new] ∧
      hasRoot (withFileName path new) = hasRoot path := by
  have noSlashes : ∀ segment ∈ parentSegments (path.splitOn slash) ++ [new], slash ∉ segment := by
    intro segment member
    rcases mem_append.mp member with isParent | isNew
    · exact slash_notMem_of_mem_splitOn (mem_of_mem_parentSegments isParent)
    · exact mem_singleton.mp isNew ▸ noSlash
  constructor
  · rw [components, withFileName, splitOn_intercalate slash noSlashes
      (append_ne_nil_of_right_ne_nil _ (cons_ne_nil _ _)),
      componentsOf_concat (.inl notBlank), componentsOf_parentSegments isPath normal]
  · have whole := @intercalate_splitOn _ path _ _ slash
    obtain ⟨first, rest, segments⟩ := exists_cons_of_ne_nil (splitOn_ne_nil slash path)
    have firstPlain : slash ∉ first :=
      slash_notMem_of_mem_splitOn (segments ▸ mem_cons_self ..)
    rw [segments] at whole noSlashes
    rw [withFileName, segments, ← whole, hasRoot_intercalate firstPlain]
    cases blank : isBlank first with
    | true =>
      rw [parentSegments_of_blank rest blank, cons_append, hasRoot_intercalate firstPlain]
      have behind : dropBlanks (dropBlanks rest).dropLast ++ [new] ≠ [] :=
        append_ne_nil_of_right_ne_nil _ (cons_ne_nil _ _)
      by_cases isEmpty : first = []
      · have some : rest ≠ [] := by
          intro alone
          rw [components, segments, isEmpty, alone] at isPath
          exact absurd isPath.symm (append_ne_nil_of_right_ne_nil _ (cons_ne_nil _ _))
        rw [decide_eq_true behind, decide_eq_true some]
      · rw [decide_eq_false isEmpty, Bool.false_and, Bool.false_and]
    | false =>
      have some : first ≠ [] := by
        intro isEmpty
        rw [isEmpty] at blank
        cases blank
      rw [decide_eq_false some, Bool.false_and]
      obtain ⟨more, parent⟩ := parentSegments_begins rest blank
      cases isParent : parentSegments (first :: rest) with
      | nil =>
        have newSome : new ≠ [] := by
          intro isEmpty
          rw [isEmpty] at notBlank
          cases notBlank
        rw [nil_append, hasRoot_intercalate noSlash, decide_eq_false newSome, Bool.false_and]
      | cons head others =>
        rw [isParent, cons_append] at parent
        rw [cons_append, (cons.inj parent).1, hasRoot_intercalate firstPlain,
          decide_eq_false some, Bool.false_and]

/-- A name of bytes that is its own scratch: it is text, and as long as a name can be, with the
suffix at its end. -/
def IsOwnScratchBytes (name : List UInt8) : Prop :=
  ∃ letters, IsOwnScratch letters ∧ name = utf8Bytes letters

theorem fitPartName_bytes_eq_iff (name : List UInt8) :
    utf8Bytes (fitPartName (fromUtf8Lossy name)).toList = name ↔ IsOwnScratchBytes name := by
  constructor
  · intro same
    have isText : fromUtf8Lossy name = fitPartName (fromUtf8Lossy name) := by
      conv_lhs => rw [← same]
      exact fromUtf8Lossy_utf8Bytes _
    refine ⟨(fromUtf8Lossy name).toList, ?_, ?_⟩
    · exact (fitPartName_eq_iff _).mp (congrArg String.toList isText.symm)
    · rw [isText]
      exact same.symm
  · rintro ⟨letters, own, rfl⟩
    have isText : fromUtf8Lossy (utf8Bytes letters) = String.ofList letters := by
      have back := fromUtf8Lossy_utf8Bytes (String.ofList letters)
      rwa [String.toList_ofList] at back
    have same := (fitPartName_eq_iff (String.ofList letters)).mpr
      (by rwa [String.toList_ofList])
    rw [isText, same, String.toList_ofList]

theorem slash_notMem_fromUtf8Lossy (noSlash : slash ∉ name) :
    '/' ∉ (fromUtf8Lossy name).toList := by
  rw [fromUtf8Lossy, String.toList_ofList]
  intro member
  rcases mem_decodeLossy member with replaced | read
  · cases replaced
  · exact noSlash (read slash (by decide))

theorem LocalTarget.slash_notMem_name : slash ∉ target.name := by
  have member := mem_of_getLast? target.isLast
  unfold components at member
  cases segments : target.path.splitOn slash with
  | nil => exact absurd segments (splitOn_ne_nil _ _)
  | cons first rest =>
    rw [segments, componentsOf] at member
    rcases mem_append.mp member with isFirst | isRest
    · split at isFirst
      · cases isFirst
      · rw [mem_singleton.mp isFirst]
        exact slash_notMem_of_mem_splitOn (segments ▸ mem_cons_self ..)
    · exact slash_notMem_of_mem_splitOn
        (segments ▸ mem_cons_of_mem _ (mem_of_mem_filter isRest))

/-- A file name of a target is its last component, but for the two dots and the one. -/
theorem LocalTarget.getD_fileName :
    (fileName target.path).getD [] = target.name ∨
      (fileName target.path).getD [] = [] ∧ target.name.length ≤ 2 := by
  unfold fileName
  rw [target.isLast]
  dsimp only
  split
  · rename_i dots
    refine .inr ⟨rfl, ?_⟩
    rcases dots with isDot | isDots
    · rw [isDot]
      decide
    · rw [isDots]
      decide
  · exact .inl rfl

theorem LocalTarget.hasScratch_iff :
    target.HasScratch (partPathOf target.path) ↔
      (Trails target.path → TooLong target.name.length) ∧ ¬ IsOwnScratchBytes target.name := by
  have suffix : suffixBytes.length = 12 := by rw [length_suffixBytes, utf8Len_partSuffix]
  have own : IsOwnScratchBytes target.name → TooLong target.name.length := by
    rintro ⟨letters, own, isName⟩
    rw [isName, length_utf8Bytes]
    exact tooLong_of_isOwnScratch own
  have short : TooLong target.name.length → ¬ target.name.length ≤ 2 := by
    rw [TooLong, nameMax, utf8Len_partSuffix]
    omega
  unfold partPathOf
  by_cases long : TooLong target.name.length
  · have isName := target.getD_fileName.resolve_right fun dots => short long dots.2
    have isTarget : components target.path =
        (components target.path).dropLast ++ [target.name] :=
      (dropLast_append_getLast? _ target.isLast).symm
    have normal : target.name ≠ currentDir := by
      intro isDot
      rw [isDot] at short long
      exact short long (by decide)
    have noSlash : slash ∉ utf8Bytes (fitPartName (fromUtf8Lossy target.name)).toList := by
      intro member
      have isLetter : '/' ∈ (fitPartName (fromUtf8Lossy target.name)).toList :=
        mem_of_mem_utf8Bytes member (by decide) rfl
      exact slash_notMem_fitPartName (slash_notMem_fromUtf8Lossy target.slash_notMem_name) isLetter
    have notBlank : isBlank (utf8Bytes (fitPartName (fromUtf8Lossy target.name)).toList) = false := by
      rw [toList_fitPartName, utf8Bytes_append]
      exact isBlank_append_suffix _
    rw [isName, if_neg (by rw [length_suffixBytes]; exact Nat.not_le.mpr long)]
    obtain ⟨isScratch, root⟩ := components_withFileName isTarget normal noSlash notBlank
    rw [LocalTarget.hasScratch_iff_ne root isTarget isScratch
      (by rw [length_utf8Bytes]; exact utf8Len_fitPartName_le _)]
    rw [ne_eq, fitPartName_bytes_eq_iff, and_iff_right fun _ => long]
  · have fits : target.name.length + suffixBytes.length ≤ nameMax := by
      rw [length_suffixBytes]
      exact Nat.not_lt.mp long
    have less : ((fileName target.path).getD []).length + suffixBytes.length ≤ nameMax := by
      rcases target.getD_fileName with isName | ⟨isEmpty, _⟩
      · rwa [isName]
      · rw [isEmpty, length_nil]
        omega
    rw [if_pos less, target.hasScratch_append_iff fits,
      and_iff_left fun isOwn => long (own isOwn)]
    exact ⟨fun ends trails => absurd trails ends, fun condition trails => long (condition trails)⟩

/-! ### Both -/

/-- A local scratch path is good where nothing follows the name of its target, or the name is cut;
a remote one where a name that is cut has a directory; and neither is where the target's name is
its own scratch. -/
theorem scratch_paths_iff (target : LocalTarget) (remote : RemoteTarget) :
    (target.HasScratch (partPathOf target.path) ↔
      (Trails target.path → TooLong target.name.length) ∧ ¬ IsOwnScratchBytes target.name) ∧
    (remote.HasScratch (remotePartPath remote.path) ↔
      (TooLong (utf8Len (remoteName remote.path.toList)) → remoteDir remote.path.toList ≠ []) ∧
        ¬ IsOwnScratch (remoteName remote.path.toList)) :=
  ⟨target.hasScratch_iff, remote.hasScratch_iff⟩

/-- A name that is cut, and stands alone. -/
def loneName : List Char := List.replicate 244 'x'

theorem eq_of_mem_loneName {letter : Char} (member : letter ∈ loneName) : letter = 'x' :=
  eq_of_mem_replicate member

theorem parts_loneName : remoteDir loneName = [] ∧ remoteName loneName = loneName :=
  @parts_of_append [] loneName (fun member => by cases eq_of_mem_loneName member) (.inl rfl)

theorem utf8Len_loneName : utf8Len loneName = 244 := by
  rw [utf8Len, loneName, map_replicate, sum_replicate_nat]
  rfl

/-- A name without a directory, which is cut. -/
def loneTarget : RemoteTarget where
  path := String.ofList loneName
  some := by
    rw [String.toList_ofList, parts_loneName.2]
    exact cons_ne_nil _ _
  short := by
    rw [String.toList_ofList, parts_loneName.2, utf8Len_loneName]
    decide

def plainTarget : LocalTarget where
  path := [0x78]
  name := [0x78]
  isLast := by decide
  short := by decide

/-- A long name without a directory has its scratch in the root. -/
theorem not_scratch_paths_loneName : ¬ ∀ (target : LocalTarget) (remote : RemoteTarget),
    target.HasScratch (partPathOf target.path) ∧
      remote.HasScratch (remotePartPath remote.path) := by
  intro always
  have condition := (loneTarget.hasScratch_iff.mp (always plainTarget loneTarget).2).1
  have isText : loneTarget.path.toList = loneName := String.toList_ofList
  rw [isText, parts_loneName.1, parts_loneName.2, utf8Len_loneName] at condition
  exact condition (by rw [TooLong, utf8Len_partSuffix]; decide) rfl

end Oryxis.Scratch

/-
This file models browsing inside a zip archive. The index is the list of the archive's entries with
their names normalized; a level lists the immediate children of a directory, which exist explicitly
or as prefixes of deeper names, merged by name; and the extraction of a directory takes all files
under it and the directories to create. Descending through the levels is a relation between a
directory and the files reached below it. Which files are reached is characterized by what stands
under their own name and under the names of their parents: the last entry of a name is the one
shown, so a file can hide other entries of its name and everything below it.
-/

import Mathlib.Data.List.Nodup
import Oryxis.Library.Text

namespace Oryxis.Archive.Browse

open Oryxis.Library List

/-! ### The index -/

/-- All components between slashes are there. -/
def Clean (name : List Char) : Prop := [] ∉ name.splitOn '/'

/-- The normalized path of an entry, or nothing for a path that tries to leave the root. -/
def normalizeEntryName (raw : List Char) : Option (List Char) :=
  let cleaned := raw.map fun letter => if letter = '\\' then '/' else letter
  let parts := (cleaned.splitOn '/').filter fun part => part ≠ [] ∧ part ≠ ['.']
  if parts.any fun part => part = ['.', '.'] || part.contains ':' then none
  else some (['/'].intercalate parts)

structure ZipEntryMeta where
  index : Nat
  name : List Char
  isDir : Bool
  size : Nat
  mtimeUnix : Option Nat
  encrypted : Bool
  clean : Clean name

/-- The entries of an archive; each has a position of its own in it. -/
structure ZipIndex where
  entries : List ZipEntryMeta
  distinct : (entries.map ZipEntryMeta.index).Nodup

structure VirtualEntry where
  name : List Char
  isDir : Bool
  size : Nat
  mtimeUnix : Option Nat
  index : Option Nat
  encrypted : Bool

/-- The name of an entry seen from a directory, if the entry is below it. -/
def relativeTo (inner name : List Char) : Option (List Char) :=
  let rel :=
    if inner = [] then some name
    else if inner.isPrefixOf name ∧ name[inner.length]? = some '/' then
      some (name.drop (inner.length + 1))
    else none
  rel.filter (· ≠ [])

/-- The row of an explicit entry. -/
def ZipEntryMeta.child (entry : ZipEntryMeta) (rel : List Char) : VirtualEntry :=
  ⟨rel, entry.isDir, entry.size, entry.mtimeUnix, some entry.index, entry.encrypted⟩

/-- The row of a directory that exists only as a prefix. -/
def impliedDir (first : List Char) : VirtualEntry := ⟨first, true, 0, none, none, false⟩

/-- An explicit entry takes the slot of its name. -/
def place (child : VirtualEntry) : List VirtualEntry → List VirtualEntry
  | [] => [child]
  | row :: out => if row.name = child.name then child :: out else row :: place child out

/-- An implied directory is added where its name has no slot. -/
def placeDir (first : List Char) (out : List VirtualEntry) : List VirtualEntry :=
  if (out.map VirtualEntry.name).contains first then out else out ++ [impliedDir first]

/-- One entry of the index, on the way to the listing of a level. -/
def listEntry (inner : List Char) (out : List VirtualEntry) (entry : ZipEntryMeta) :
    List VirtualEntry :=
  match relativeTo inner entry.name with
  | none => out
  | some rel =>
    match splitOnce '/' rel with
    | none => place (entry.child rel) out
    | some (first, _) => placeDir first out

/-- The immediate children of a directory; `[]` is the root. -/
def listDir (index : ZipIndex) (inner : List Char) : List VirtualEntry :=
  index.entries.foldl (listEntry inner) []

/-- A component behind a path. -/
def under (inner name : List Char) : List Char :=
  if inner = [] then name else inner ++ '/' :: name

/-- The paths that the components make one after the other. -/
def chain (acc : List Char) : List (List Char) → List (List Char)
  | [] => []
  | part :: parts => under acc part :: chain (under acc part) parts

/-- Insert into a sorted list without duplicates. -/
def insertDir (dir : List Char) : List (List Char) → List (List Char)
  | [] => [dir]
  | other :: dirs =>
    if dir = other then other :: dirs
    else if dir < other then dir :: other :: dirs
    else other :: insertDir dir dirs

/-- One entry of the index, on the way to the files and directories of an extraction. -/
def extractEntry (inner : List Char) (out : List (Nat × List Char) × List (List Char))
    (entry : ZipEntryMeta) : List (Nat × List Char) × List (List Char) :=
  match relativeTo inner entry.name with
  | none => out
  | some rel =>
    if entry.isDir then (out.1, insertDir rel out.2)
    else
      (out.1 ++ [(entry.index, rel)],
        (chain [] (rel.splitOn '/').dropLast).foldl (fun dirs dir => insertDir dir dirs) out.2)

/-- All files under a directory, by index and relative path, and the directories to create. -/
def entriesUnder (index : ZipIndex) (inner : List Char) :
    List (Nat × List Char) × List (List Char) :=
  index.entries.foldl (extractEntry inner) ([], [])

/-- Descending through the levels: the file with this index is reached from a directory under this
path. -/
inductive Reached (index : ZipIndex) : List Char → Nat → List Char → Prop where
  | file {inner : List Char} {row : VirtualEntry} {position : Nat}
      (listed : row ∈ listDir index inner) (isFile : row.isDir = false)
      (known : row.index = some position) : Reached index inner position row.name
  | down {inner rel : List Char} {row : VirtualEntry} {position : Nat}
      (listed : row ∈ listDir index inner) (isDir : row.isDir = true)
      (below : Reached index (under inner row.name) position rel) :
      Reached index inner position (row.name ++ '/' :: rel)

/-! ### Names -/

theorem clean_append_iff (first rest : List Char) :
    Clean (first ++ '/' :: rest) ↔ Clean first ∧ Clean rest := by
  unfold Clean
  rw [splitOn_append_cons_self, mem_append, not_or]

variable {name : List Char}

theorem Clean.ne_nil (clean : Clean name) : name ≠ [] := by
  rintro rfl
  exact clean mem_cons_self

theorem notMem_of_mem_splitOn {part : List Char} (member : part ∈ name.splitOn '/') :
    '/' ∉ part := by
  induction name generalizing part with
  | nil =>
    rw [splitOn_nil, mem_singleton] at member
    rw [member]
    exact not_mem_nil
  | cons letter name inductionHypothesis =>
    rw [splitOn_cons_eq_if_modifyHead] at member
    split at member
    · rcases mem_cons.mp member with rfl | later
      · exact not_mem_nil
      · exact inductionHypothesis later
    · rename_i other
      cases parts : name.splitOn '/' with
      | nil => exact absurd parts (splitOn_ne_nil _ _)
      | cons first rest =>
        rw [parts] at member inductionHypothesis
        rw [modifyHead_cons] at member
        rcases mem_cons.mp member with rfl | later
        · rw [mem_cons, not_or]
          refine ⟨?_, inductionHypothesis mem_cons_self⟩
          rintro rfl
          exact other (beq_self_eq_true _)
        · exact inductionHypothesis (mem_cons_of_mem _ later)

/-- Normalized names have all their components. -/
theorem clean_of_normalize {raw : List Char} (normalized : normalizeEntryName raw = some name)
    (some : name ≠ []) : Clean name := by
  unfold normalizeEntryName at normalized
  simp only at normalized
  split at normalized
  · cases normalized
  · cases normalized
    generalize hparts : ((raw.map fun letter => if letter = '\\' then '/' else letter).splitOn
      '/').filter (fun part => decide (part ≠ [] ∧ part ≠ ['.'])) = parts at some ⊢
    have each : ∀ part ∈ parts, part ≠ [] ∧ '/' ∉ part := by
      intro part member
      rw [← hparts, mem_filter, decide_eq_true_eq] at member
      exact ⟨member.2.1, notMem_of_mem_splitOn member.1⟩
    have nonempty : parts ≠ [] := by
      rintro rfl
      exact some rfl
    unfold Clean
    rw [splitOn_intercalate '/' (fun part member => (each part member).2) nonempty]
    exact fun member => (each [] member).1 rfl

/-- What the central directory says of an entry. -/
structure RawEntry where
  rawName : List Char
  isDir : Bool
  size : Nat
  mtimeUnix : Option Nat
  encrypted : Bool

/-- The entries from a position on; unsafe and empty paths are skipped. -/
def readEntries (position : Nat) : List RawEntry → List ZipEntryMeta
  | [] => []
  | raw :: rest =>
    match _normalized : normalizeEntryName raw.rawName with
    | none => readEntries (position + 1) rest
    | some name =>
      if _empty : name = [] then readEntries (position + 1) rest
      else
        ⟨position, name, raw.isDir, raw.size, raw.mtimeUnix, raw.encrypted,
            clean_of_normalize _normalized _empty⟩ :: readEntries (position + 1) rest

variable {entry : ZipEntryMeta}

theorem le_index_of_mem_readEntries {position : Nat} {raws : List RawEntry}
    (member : entry ∈ readEntries position raws) : position ≤ entry.index := by
  induction raws generalizing position with
  | nil => exact absurd member not_mem_nil
  | cons raw raws inductionHypothesis =>
    rw [readEntries] at member
    split at member
    · exact Nat.le_of_succ_le (inductionHypothesis member)
    · split at member
      · exact Nat.le_of_succ_le (inductionHypothesis member)
      · rcases mem_cons.mp member with rfl | later
        · exact Nat.le_refl _
        · exact Nat.le_of_succ_le (inductionHypothesis later)

theorem nodup_readEntries (position : Nat) (raws : List RawEntry) :
    ((readEntries position raws).map ZipEntryMeta.index).Nodup := by
  induction raws generalizing position with
  | nil => exact nodup_nil
  | cons raw raws inductionHypothesis =>
    rw [readEntries]
    split
    · exact inductionHypothesis _
    · split
      · exact inductionHypothesis _
      · rw [map_cons, nodup_cons]
        refine ⟨fun again => ?_, inductionHypothesis _⟩
        obtain ⟨entry, member, same⟩ := mem_map.mp again
        have later := le_index_of_mem_readEntries member
        simp only at same
        omega

/-- Read the central directory of an archive. -/
def readIndex (raws : List RawEntry) : ZipIndex := ⟨readEntries 0 raws, nodup_readEntries 0 raws⟩

variable {inner rel : List Char}

theorem relativeTo_eq_some_iff (clean : Clean name) :
    relativeTo inner name = some rel ↔ name = under inner rel ∧ Clean rel := by
  unfold relativeTo under
  by_cases root : inner = []
  · rw [if_pos root, if_pos root, Option.filter_eq_some_iff]
    constructor
    · rintro ⟨same, _⟩
      cases same
      exact ⟨rfl, clean⟩
    · rintro ⟨rfl, _⟩
      exact ⟨rfl, by rw [decide_eq_true_eq]; exact clean.ne_nil⟩
  · rw [if_neg root, if_neg root, Option.filter_eq_some_iff]
    constructor
    · rintro ⟨same, some⟩
      split at same
      · rename_i inside
        cases same
        obtain ⟨tail, rfl⟩ := isPrefixOf_iff_prefix.mp inside.1
        have slash := inside.2
        rw [getElem?_append_right (Nat.le_refl _), Nat.sub_self] at slash
        cases tail with
        | nil => cases slash
        | cons letter tail =>
          cases slash
          rw [drop_append, drop_eq_nil_of_le (Nat.le_succ _), Nat.add_sub_cancel_left]
          exact ⟨rfl, ((clean_append_iff inner tail).mp clean).2⟩
      · cases same
    · rintro ⟨rfl, cleanRel⟩
      have front : inner.isPrefixOf (inner ++ '/' :: rel) ∧
          (inner ++ '/' :: rel)[inner.length]? = some '/' := by
        refine ⟨List.isPrefixOf_iff_prefix.mpr (prefix_append _ _), ?_⟩
        rw [getElem?_append_right (Nat.le_refl _), Nat.sub_self]
        rfl
      rw [if_pos front, drop_append, drop_eq_nil_of_le (Nat.le_succ _),
        Nat.add_sub_cancel_left]
      exact ⟨rfl, by rw [decide_eq_true_eq]; exact cleanRel.ne_nil⟩

variable {first : List Char}

theorem under_under (some : first ≠ []) (rest : List Char) :
    under (under inner first) rest = under inner (first ++ '/' :: rest) := by
  unfold under
  by_cases root : inner = []
  · rw [if_pos root, if_pos root, if_neg some]
  · rw [if_neg root, if_neg root, if_neg (append_ne_nil_of_left_ne_nil root _),
      append_assoc]
    rfl

theorem under_inj {second : List Char} (same : under inner first = under inner second) :
    first = second := by
  unfold under at same
  split at same
  · exact same
  · exact (cons.inj (append_cancel_left same)).2

theorem clean_of_under (clean : Clean (under inner rel)) : Clean rel := by
  unfold under at clean
  split at clean
  · exact clean
  · exact ((clean_append_iff inner rel).mp clean).2

theorem relativeTo_under (clean : Clean (under inner rel)) :
    relativeTo inner (under inner rel) = some rel :=
  (relativeTo_eq_some_iff clean).mpr ⟨rfl, clean_of_under clean⟩

/-- A slash behind a component is the first one, or stands in what is behind it. -/
theorem cut_of_append {rest front more : List Char} (component : '/' ∉ first)
    (same : first ++ '/' :: rest = front ++ '/' :: more) :
    front = first ∧ more = rest ∨
      ∃ front', front = first ++ '/' :: front' ∧ rest = front' ++ '/' :: more := by
  rcases append_eq_append_iff.mp same with ⟨tail, whole, behind⟩ | ⟨tail, whole, behind⟩
  · cases tail with
    | nil =>
      rw [append_nil] at whole
      exact .inl ⟨whole, (cons.inj behind).2.symm⟩
    | cons letter tail =>
      obtain ⟨isSlash, sameRest⟩ := cons.inj behind
      cases isSlash
      exact .inr ⟨tail, whole, sameRest⟩
  · cases tail with
    | nil =>
      rw [append_nil] at whole
      exact .inl ⟨whole.symm, (cons.inj behind).2⟩
    | cons letter tail =>
      obtain ⟨isSlash, _⟩ := cons.inj behind
      cases isSlash
      exact absurd (whole ▸ mem_append_right front mem_cons_self) component

/-! ### The rows of a level -/

/-- Some entry is this component of the directory, or lies below it. -/
def FirstBelow (entries : List ZipEntryMeta) (inner first : List Char) : Prop :=
  '/' ∉ first ∧ ∃ entry ∈ entries, entry.name = under inner first ∨
    ∃ more, entry.name = under inner (first ++ '/' :: more)

/-- The entry is the last one of its name. -/
def LastOf (entries : List ZipEntryMeta) (entry : ZipEntryMeta) : Prop :=
  ∃ front back, entries = front ++ entry :: back ∧ ∀ later ∈ back, later.name ≠ entry.name

/-- The row is that of the last entry of its name, or of a directory that no entry names. -/
def Shown (entries : List ZipEntryMeta) (inner : List Char) (row : VirtualEntry) : Prop :=
  (∃ entry, LastOf entries entry ∧ entry.name = under inner row.name ∧
      row = entry.child row.name) ∨
    row = impliedDir row.name ∧ ∀ entry ∈ entries, entry.name ≠ under inner row.name

structure Lists (entries : List ZipEntryMeta) (inner : List Char) (out : List VirtualEntry) :
    Prop where
  distinct : (out.map VirtualEntry.name).Nodup
  names : ∀ first, first ∈ out.map VirtualEntry.name ↔ FirstBelow entries inner first
  rows : ∀ row ∈ out, Shown entries inner row

variable {entries : List ZipEntryMeta} {later : ZipEntryMeta}

theorem LastOf.snoc (last : LastOf entries entry) (other : later.name ≠ entry.name) :
    LastOf (entries ++ [later]) entry := by
  obtain ⟨front, back, rfl, apart⟩ := last
  refine ⟨front, back ++ [later], by rw [append_assoc, cons_append], ?_⟩
  intro any member
  rcases mem_append.mp member with inside | isLater
  · exact apart any inside
  · rw [mem_singleton.mp isLater]
    exact other

variable {row : VirtualEntry}

theorem Shown.snoc (shown : Shown entries inner row) (other : later.name ≠ under inner row.name) :
    Shown (entries ++ [later]) inner row := by
  rcases shown with ⟨entry, last, named, same⟩ | ⟨implied, absent⟩
  · exact .inl ⟨entry, last.snoc (named ▸ other), named, same⟩
  · refine .inr ⟨implied, fun entry member => ?_⟩
    rcases mem_append.mp member with inside | isLater
    · exact absent entry inside
    · rw [mem_singleton.mp isLater]
      exact other

theorem mem_names_place (child : VirtualEntry) (out : List VirtualEntry) (name : List Char) :
    name ∈ (place child out).map VirtualEntry.name ↔
      name = child.name ∨ name ∈ out.map VirtualEntry.name := by
  induction out with
  | nil => simp [place]
  | cons row out inductionHypothesis =>
    rw [place]
    split
    · rename_i same
      rw [map_cons, map_cons, mem_cons, mem_cons, same, or_self_left]
    · rw [map_cons, map_cons, mem_cons, mem_cons, inductionHypothesis,
        or_left_comm]

variable {out : List VirtualEntry}

theorem nodup_place {child : VirtualEntry} (distinct : (out.map VirtualEntry.name).Nodup) :
    ((place child out).map VirtualEntry.name).Nodup := by
  induction out with
  | nil => exact nodup_singleton _
  | cons row out inductionHypothesis =>
    rw [map_cons, nodup_cons] at distinct
    rw [place]
    split
    · rename_i same
      rw [map_cons, nodup_cons, ← same]
      exact distinct
    · rename_i other
      rw [map_cons, nodup_cons, mem_names_place, not_or]
      exact ⟨⟨other, distinct.1⟩, inductionHypothesis distinct.2⟩

theorem mem_place {child : VirtualEntry} (distinct : (out.map VirtualEntry.name).Nodup)
    (member : row ∈ place child out) :
    row = child ∨ row ∈ out ∧ row.name ≠ child.name := by
  induction out with
  | nil => exact .inl (mem_singleton.mp member)
  | cons first out inductionHypothesis =>
    rw [map_cons, nodup_cons] at distinct
    rw [place] at member
    split at member
    · rename_i same
      rcases mem_cons.mp member with isChild | inside
      · exact .inl isChild
      · refine .inr ⟨mem_cons_of_mem _ inside, fun again => distinct.1 ?_⟩
        rw [same, ← again]
        exact mem_map_of_mem inside
    · rename_i other
      rcases mem_cons.mp member with rfl | inside
      · exact .inr ⟨mem_cons_self, other⟩
      · rcases inductionHypothesis distinct.2 inside with isChild | ⟨kept, apart⟩
        · exact .inl isChild
        · exact .inr ⟨mem_cons_of_mem _ kept, apart⟩

theorem firstBelow_snoc : FirstBelow (entries ++ [later]) inner first ↔
      FirstBelow entries inner first ∨ FirstBelow [later] inner first := by
  constructor
  · rintro ⟨component, entry, member, named⟩
    rcases mem_append.mp member with inside | isLater
    · exact .inl ⟨component, entry, inside, named⟩
    · exact .inr ⟨component, entry, isLater, named⟩
  · rintro (⟨component, entry, inside, named⟩ | ⟨component, entry, isLater, named⟩)
    · exact ⟨component, entry, mem_append_left _ inside, named⟩
    · exact ⟨component, entry, mem_append_right _ isLater, named⟩

/-- An entry that is not below the directory has no name under it. -/
theorem ne_under_of_none (outside : relativeTo inner entry.name = none) (rel : List Char) :
    entry.name ≠ under inner rel := by
  intro named
  have clean := entry.clean
  rw [named] at clean outside
  rw [relativeTo_under clean] at outside
  cases outside

theorem not_firstBelow_of_none (outside : relativeTo inner entry.name = none) :
    ¬FirstBelow [entry] inner first := by
  rintro ⟨_, other, member, named⟩
  rw [mem_singleton.mp member] at named
  rcases named with named | ⟨more, named⟩
  · exact ne_under_of_none outside _ named
  · exact ne_under_of_none outside _ named

/-- The first component of what an entry is below the directory. -/
theorem firstBelow_of_some (below : entry.name = under inner rel) :
    FirstBelow [entry] inner first ↔
      '/' ∉ first ∧ (rel = first ∨ ∃ more, rel = first ++ '/' :: more) := by
  constructor
  · rintro ⟨component, other, member, named⟩
    rw [mem_singleton.mp member, below] at named
    refine ⟨component, ?_⟩
    rcases named with named | ⟨more, named⟩
    · exact .inl (under_inj named)
    · exact .inr ⟨more, under_inj named⟩
  · rintro ⟨component, rfl | ⟨more, rfl⟩⟩
    · exact ⟨component, entry, mem_singleton_self _, .inl below⟩
    · exact ⟨component, entry, mem_singleton_self _, .inr ⟨more, below⟩⟩

theorem Lists.listEntry (lists : Lists entries inner out) (entry : ZipEntryMeta) :
    Lists (entries ++ [entry]) inner (Browse.listEntry inner out entry) := by
  obtain ⟨distinct, names, rows⟩ := lists
  unfold Browse.listEntry
  cases position : relativeTo inner entry.name with
  | none =>
    refine ⟨distinct, fun first => ?_, fun row member => (rows row member).snoc fun named => ?_⟩
    · rw [names, firstBelow_snoc, or_iff_left (not_firstBelow_of_none position)]
    · have clean := entry.clean
      rw [named] at clean position
      rw [relativeTo_under clean] at position
      cases position
  | some rel =>
    have below := ((relativeTo_eq_some_iff entry.clean).mp position).1
    simp only
    cases cut : splitOnce '/' rel with
    | none =>
      have component := splitOnce_eq_none_iff.mp cut
      refine ⟨nodup_place distinct, fun first => ?_, fun row member => ?_⟩
      · rw [mem_names_place, names, firstBelow_snoc, firstBelow_of_some below, or_comm]
        refine or_congr_right ⟨?_, ?_⟩
        · rintro rfl
          exact ⟨component, .inl rfl⟩
        · rintro ⟨_, same | ⟨more, same⟩⟩
          · exact same.symm
          · exact absurd (same ▸ mem_append_right _ mem_cons_self) component
      · rcases mem_place distinct member with rfl | ⟨inside, other⟩
        · refine .inl ⟨entry, ⟨entries, [], rfl, fun _ none => ?_⟩, below, rfl⟩
          exact absurd none not_mem_nil
        · refine (rows row inside).snoc fun named => other ?_
          exact (under_inj (named.symm.trans below)).symm ▸ rfl
    | some parts =>
      obtain ⟨first, rest⟩ := parts
      obtain ⟨rfl, component⟩ := splitOnce_eq_some_iff.mp cut
      have apart : ∀ row ∈ out, entry.name ≠ under inner row.name := by
        intro row member named
        have plain := ((names row.name).mp (mem_map_of_mem member)).1
        have same := under_inj (below.symm.trans named)
        exact plain (same ▸ mem_append_right _ mem_cons_self)
      have others : ∀ name, FirstBelow [entry] inner name ↔ name = first := by
        intro name
        rw [firstBelow_of_some below]
        constructor
        · rintro ⟨plain, same | ⟨more, same⟩⟩
          · exact absurd (same ▸ mem_append_right _ mem_cons_self) plain
          · rcases cut_of_append component same with ⟨isFirst, _⟩ | ⟨longer, whole, _⟩
            · exact isFirst
            · exact absurd (whole ▸ mem_append_right _ mem_cons_self) plain
        · rintro rfl
          exact ⟨component, .inr ⟨rest, rfl⟩⟩
      simp only [placeDir]
      split
      · rename_i present
        rw [contains_iff_mem] at present
        refine ⟨distinct, fun name => ?_, fun row member => (rows row member).snoc (apart row member)⟩
        rw [firstBelow_snoc, others, ← names]
        refine ⟨.inl, ?_⟩
        rintro (member | rfl)
        · exact member
        · exact present
      · rename_i absent
        rw [contains_iff_mem] at absent
        refine ⟨?_, fun name => ?_, fun row member => ?_⟩
        · rw [map_append]
          exact distinct.append (nodup_singleton _) (by simpa [impliedDir] using absent)
        · rw [map_append, mem_append, names, firstBelow_snoc, others]
          exact or_congr_right mem_singleton
        · rcases mem_append.mp member with inside | isNew
          · exact (rows row inside).snoc (apart row inside)
          · rw [mem_singleton.mp isNew]
            refine .inr ⟨rfl, fun other member named => ?_⟩
            rcases mem_append.mp member with inside | isLast
            · exact absent ((names first).mpr ⟨component, other, inside, .inl named⟩)
            · rw [mem_singleton.mp isLast, below] at named
              have same : first ++ '/' :: rest = first := under_inj named
              exact component (same ▸ mem_append_right _ mem_cons_self)

theorem Lists.foldl {before : List ZipEntryMeta} (lists : Lists before inner out)
    (entries : List ZipEntryMeta) :
    Lists (before ++ entries) inner (entries.foldl (Browse.listEntry inner) out) := by
  induction entries generalizing before out with
  | nil =>
    rw [append_nil]
    exact lists
  | cons entry entries inductionHypothesis =>
    have next := inductionHypothesis (lists.listEntry entry)
    rw [append_assoc] at next
    exact next

/-- A level lists each first component once, with the row of the last entry of its name. -/
theorem lists_listDir (index : ZipIndex) (inner : List Char) :
    Lists index.entries inner (listDir index inner) := by
  have start : Lists [] inner [] := by
    refine ⟨nodup_nil, fun first => ?_, forall_mem_nil _⟩
    refine iff_of_false not_mem_nil ?_
    rintro ⟨_, entry, member, _⟩
    exact not_mem_nil member
  exact start.foldl index.entries

/-! ### The files reached -/

/-- The last entry of this path is the file at this position. -/
def FileShown (index : ZipIndex) (path : List Char) (position : Nat) : Prop :=
  ∃ entry, LastOf index.entries entry ∧ entry.name = path ∧ entry.isDir = false ∧
    entry.index = position

/-- The last entry of this path, if there is one, is a directory. -/
def DirShown (index : ZipIndex) (path : List Char) : Prop :=
  ∀ entry, LastOf index.entries entry → entry.name = path → entry.isDir = true

theorem LastOf.mem (last : LastOf entries entry) : entry ∈ entries := by
  obtain ⟨front, back, rfl, _⟩ := last
  exact mem_append_right _ mem_cons_self

/-- Only one entry is the last of its name. -/
theorem LastOf.unique {other : ZipEntryMeta} (last : LastOf entries entry)
    (last' : LastOf entries other) (same : entry.name = other.name) :
    entry = other := by
  obtain ⟨front, back, rfl, apart⟩ := last
  obtain ⟨front', back', whole, apart'⟩ := last'
  rcases append_eq_append_iff.mp whole with ⟨tail, _, behind⟩ | ⟨tail, _, behind⟩
  · cases tail with
    | nil => exact (cons.inj behind).1
    | cons first tail =>
      have inside : other ∈ back := by
        rw [(cons.inj behind).2]
        exact mem_append_right _ mem_cons_self
      exact absurd same.symm (apart other inside)
  · cases tail with
    | nil => exact (cons.inj behind).1.symm
    | cons first tail =>
      have inside : entry ∈ back' := by
        rw [(cons.inj behind).2]
        exact mem_append_right _ mem_cons_self
      exact absurd same (apart' entry inside)

theorem reached_of_row {index : ZipIndex} (listed : row ∈ listDir index inner) :
    '/' ∉ row.name ∧ row.name ≠ [] ∧
      Shown index.entries inner row := by
  have lists := lists_listDir index inner
  obtain ⟨component, entry, _, named⟩ :=
    (lists.names row.name).mp (mem_map_of_mem listed)
  refine ⟨component, ?_, lists.rows row listed⟩
  have clean := entry.clean
  rcases named with named | ⟨more, named⟩
  · rw [named] at clean
    exact (clean_of_under clean).ne_nil
  · rw [named] at clean
    exact ((clean_append_iff _ _).mp (clean_of_under clean)).1.ne_nil

theorem reached_of_shown {index : ZipIndex} {inner rel : List Char} {position : Nat}
    (shown : FileShown index (under inner rel) position)
    (parents : ∀ parent more, rel = parent ++ '/' :: more → DirShown index (under inner parent)) :
    Reached index inner position rel := by
  obtain ⟨entry, last, named, isFile, rfl⟩ := shown
  have lists := lists_listDir index inner
  have clean := entry.clean
  rw [named] at clean
  cases cut : splitOnce '/' rel with
  | none =>
    have component := splitOnce_eq_none_iff.mp cut
    have present := (lists.names rel).mpr ⟨component, entry, last.mem, .inl named⟩
    obtain ⟨row, listed, rfl⟩ := mem_map.mp present
    rcases lists.rows row listed with ⟨other, otherLast, otherNamed, same⟩ | ⟨_, absent⟩
    · have isEntry := otherLast.unique last (otherNamed.trans named.symm)
      rw [isEntry] at same
      refine .file listed ?_ ?_
      · rw [same]
        exact isFile
      · rw [same]
        rfl
    · exact absurd named (absent entry last.mem)
  | some parts =>
    obtain ⟨first, rest⟩ := parts
    obtain ⟨whole, component⟩ := splitOnce_eq_some_iff.mp cut
    have shorter : rest.length < rel.length := by
      rw [whole, length_append, length_cons]
      omega
    rw [whole] at clean
    have cleanFirst := ((clean_append_iff first rest).mp (clean_of_under clean)).1
    have present := (lists.names first).mpr
      ⟨component, entry, last.mem, .inr ⟨rest, whole ▸ named⟩⟩
    obtain ⟨row, listed, rfl⟩ := mem_map.mp present
    have isDir : row.isDir = true := by
      rcases lists.rows row listed with ⟨other, otherLast, otherNamed, same⟩ | ⟨implied, _⟩
      · rw [same]
        exact parents row.name rest whole other otherLast otherNamed
      · rw [implied]
        rfl
    have below : Reached index (under inner row.name) entry.index rest := by
      refine reached_of_shown ?_ fun parent more same => ?_
      · rw [under_under cleanFirst.ne_nil, ← whole]
        exact ⟨entry, last, named, isFile, rfl⟩
      · rw [under_under cleanFirst.ne_nil]
        refine parents (row.name ++ '/' :: parent) more ?_
        rw [whole, same, append_assoc]
        rfl
    rw [whole]
    exact .down listed isDir below
termination_by rel.length
decreasing_by exact shorter

/-- A file is reached when it is the last of its name, and no parent on the way shows as a file. -/
theorem reached_iff (index : ZipIndex) (inner : List Char) (position : Nat) (rel : List Char) :
    Reached index inner position rel ↔ FileShown index (under inner rel) position ∧
      ∀ parent more, rel = parent ++ '/' :: more → DirShown index (under inner parent) := by
  constructor
  · intro reached
    induction reached with
    | @file inner row position listed isFile known =>
      obtain ⟨component, _, shown⟩ := reached_of_row listed
      refine ⟨?_, fun parent more same => ?_⟩
      · rcases shown with ⟨entry, last, named, same⟩ | ⟨implied, _⟩
        · refine ⟨entry, last, named, ?_, ?_⟩
          · rw [same] at isFile
            exact isFile
          · rw [same] at known
            exact Option.some.inj known
        · rw [implied] at isFile
          cases isFile
      · exact absurd (same ▸ mem_append_right _ mem_cons_self) component
    | @down inner rel row position listed isDir below inductionHypothesis =>
      obtain ⟨component, some, shown⟩ := reached_of_row listed
      obtain ⟨fileShown, parents⟩ := inductionHypothesis
      rw [under_under some] at fileShown
      refine ⟨fileShown, fun parent more same => ?_⟩
      rcases cut_of_append component same with ⟨rfl, _⟩ | ⟨parent', rfl, same'⟩
      · intro entry last named
        rcases shown with ⟨shownEntry, shownLast, shownNamed, sameRow⟩ | ⟨_, absent⟩
        · rw [last.unique shownLast (named.trans shownNamed.symm)]
          rw [sameRow] at isDir
          exact isDir
        · exact absurd named (absent entry last.mem)
      · rw [← under_under some]
        exact parents parent' more same'
  · rintro ⟨shown, parents⟩
    exact reached_of_shown shown parents

/-! ### The files and directories of an extraction -/

theorem mem_insertDir (dir other : List Char) (dirs : List (List Char)) :
    dir ∈ insertDir other dirs ↔ dir = other ∨ dir ∈ dirs := by
  induction dirs with
  | nil => exact mem_singleton.trans (or_iff_left not_mem_nil).symm
  | cons first dirs inductionHypothesis =>
    rw [insertDir]
    split
    · rename_i same
      rw [same, mem_cons, or_self_left]
    · split
      · exact mem_cons
      · rw [mem_cons, inductionHypothesis, mem_cons, or_left_comm]

theorem mem_foldl_insertDir (dir : List Char) (added dirs : List (List Char)) :
    dir ∈ added.foldl (fun dirs dir => insertDir dir dirs) dirs ↔ dir ∈ added ∨ dir ∈ dirs := by
  induction added generalizing dirs with
  | nil => exact (or_iff_right not_mem_nil).symm
  | cons first added inductionHypothesis =>
    rw [foldl_cons, inductionHypothesis, mem_insertDir, mem_cons, or_left_comm, or_assoc]

/-- The chain of a path's components holds its parents. -/
theorem mem_chain_iff {acc dir : List Char} {parts : List (List Char)} (nonempty : parts ≠ [])
    (each : ∀ part ∈ parts, part ≠ [] ∧ '/' ∉ part) :
    dir ∈ chain acc parts.dropLast ↔
      ∃ parent more, dir = under acc parent ∧ ['/'].intercalate parts = parent ++ '/' :: more := by
  induction parts generalizing acc with
  | nil => exact absurd rfl nonempty
  | cons part parts inductionHypothesis =>
    rw [forall_mem_cons] at each
    cases parts with
    | nil =>
      refine iff_of_false not_mem_nil ?_
      rintro ⟨parent, more, _, same⟩
      rw [intercalate_singleton] at same
      exact each.1.2 (same ▸ mem_append_right _ mem_cons_self)
    | cons second parts =>
      have rest : dir ∈ chain (under acc part) (second :: parts).dropLast ↔ _ :=
        inductionHypothesis (cons_ne_nil _ _) each.2
      rw [dropLast_cons_cons, chain, mem_cons, rest, intercalate_cons_cons,
        append_assoc, singleton_append]
      constructor
      · rintro (rfl | ⟨parent, more, rfl, same⟩)
        · exact ⟨part, _, rfl, rfl⟩
        · refine ⟨part ++ '/' :: parent, more, under_under each.1.1 parent, ?_⟩
          rw [same, append_assoc]
          rfl
      · rintro ⟨parent, more, rfl, same⟩
        rcases cut_of_append each.1.2 same with ⟨rfl, _⟩ | ⟨parent', rfl, same'⟩
        · exact .inl rfl
        · exact .inr ⟨parent', more, (under_under each.1.1 parent').symm, same'⟩

theorem mem_chain_splitOn {dir : List Char} (clean : Clean rel) :
    dir ∈ chain [] (rel.splitOn '/').dropLast ↔ ∃ more, rel = dir ++ '/' :: more := by
  have each : ∀ part ∈ rel.splitOn '/', part ≠ [] ∧ '/' ∉ part := by
    intro part member
    refine ⟨?_, notMem_of_mem_splitOn member⟩
    rintro rfl
    exact clean member
  rw [mem_chain_iff (splitOn_ne_nil _ _) each, intercalate_splitOn]
  constructor
  · rintro ⟨parent, more, rfl, same⟩
    exact ⟨more, same⟩
  · rintro ⟨more, same⟩
    exact ⟨dir, more, rfl, same⟩

/-- The files and directories that some entries make. -/
structure Extracts (entries : List ZipEntryMeta) (inner : List Char)
    (out : List (Nat × List Char) × List (List Char)) : Prop where
  files : ∀ position rel, (position, rel) ∈ out.1 ↔ ∃ entry ∈ entries,
    entry.isDir = false ∧ entry.index = position ∧ entry.name = under inner rel
  dirs : ∀ dir, dir ∈ out.2 ↔
    (∃ entry ∈ entries, entry.isDir = true ∧ entry.name = under inner dir) ∨
      ∃ entry ∈ entries, entry.isDir = false ∧
        ∃ more, entry.name = under inner (dir ++ '/' :: more)

theorem exists_mem_snoc (holds : ZipEntryMeta → Prop) :
    (∃ any ∈ entries ++ [entry], holds any) ↔ (∃ any ∈ entries, holds any) ∨ holds entry := by
  constructor
  · rintro ⟨any, member, it⟩
    rcases mem_append.mp member with inside | isEntry
    · exact .inl ⟨any, inside, it⟩
    · exact .inr (mem_singleton.mp isEntry ▸ it)
  · rintro (⟨any, inside, it⟩ | it)
    · exact ⟨any, mem_append_left _ inside, it⟩
    · exact ⟨entry, mem_append_right _ (mem_singleton_self _), it⟩

theorem Extracts.extractEntry {out : List (Nat × List Char) × List (List Char)}
    (extracts : Extracts entries inner out) (entry : ZipEntryMeta) :
    Extracts (entries ++ [entry]) inner (Browse.extractEntry inner out entry) := by
  obtain ⟨files, dirs⟩ := extracts
  unfold Browse.extractEntry
  cases position : relativeTo inner entry.name with
  | none =>
    have outside := ne_under_of_none position
    refine ⟨fun position rel => ?_, fun dir => ?_⟩
    · rw [files, exists_mem_snoc, or_iff_left]
      exact fun it => outside rel it.2.2
    · rw [dirs, exists_mem_snoc, exists_mem_snoc]
      simp only [outside, and_false, or_false, exists_const]
  | some rel =>
    have below := (relativeTo_eq_some_iff entry.clean).mp position
    have named : ∀ other, entry.name = under inner other ↔ other = rel := by
      intro other
      rw [below.1]
      exact ⟨fun same => (under_inj same).symm, fun same => congrArg (under inner) same.symm⟩
    simp only
    split
    · rename_i isDir
      refine ⟨fun position other => ?_, fun dir => ?_⟩
      · rw [files, exists_mem_snoc, isDir, or_iff_left]
        rintro ⟨impossible, _⟩
        cases impossible
      · rw [mem_insertDir, dirs, exists_mem_snoc, exists_mem_snoc, named, isDir]
        simp only [true_and, Bool.true_eq_false, false_and, or_false]
        rw [or_comm, or_right_comm]
    · rename_i isFile
      rw [Bool.not_eq_true] at isFile
      refine ⟨fun position other => ?_, fun dir => ?_⟩
      · rw [mem_append, files, exists_mem_snoc, named, mem_singleton, Prod.mk.injEq,
          isFile]
        simp only [true_and]
        rw [eq_comm (a := entry.index)]
      · rw [mem_foldl_insertDir, dirs, exists_mem_snoc, exists_mem_snoc,
          mem_chain_splitOn below.2, isFile]
        simp only [named, Bool.false_eq_true, false_and, or_false, true_and]
        rw [or_comm, or_assoc]
        simp only [eq_comm]

theorem Extracts.foldl {before : List ZipEntryMeta}
    {out : List (Nat × List Char) × List (List Char)} (extracts : Extracts before inner out)
    (entries : List ZipEntryMeta) :
    Extracts (before ++ entries) inner (entries.foldl (Browse.extractEntry inner) out) := by
  induction entries generalizing before out with
  | nil =>
    rw [append_nil]
    exact extracts
  | cons entry entries inductionHypothesis =>
    have next := inductionHypothesis (extracts.extractEntry entry)
    rw [append_assoc] at next
    exact next

theorem extracts_entriesUnder (index : ZipIndex) (inner : List Char) :
    Extracts index.entries inner (entriesUnder index inner) := by
  have start : Extracts [] inner ([], []) := by
    refine ⟨fun position rel => ?_, fun dir => ?_⟩
    · refine iff_of_false not_mem_nil ?_
      rintro ⟨entry, member, _⟩
      exact not_mem_nil member
    · refine iff_of_false not_mem_nil ?_
      rintro (⟨entry, member, _⟩ | ⟨entry, member, _⟩) <;> exact not_mem_nil member
  exact start.foldl index.entries

/-! ### What browsing loses -/

/-- A level names each first component of the entries below it once, descending reaches the files
of an extraction, and its directories hold every parent of its files and directories. -/
structure LosesNothing (index : ZipIndex) (inner : List Char) : Prop where
  once : ((listDir index inner).map VirtualEntry.name).Nodup
  names : ∀ first, first ∈ (listDir index inner).map VirtualEntry.name ↔
    FirstBelow index.entries inner first
  files : ∀ position rel,
    Reached index inner position rel ↔ (position, rel) ∈ (entriesUnder index inner).1
  parents : ∀ path, (∃ position, (position, path) ∈ (entriesUnder index inner).1) ∨
      path ∈ (entriesUnder index inner).2 →
    ∀ parent more, path = parent ++ '/' :: more → parent ∈ (entriesUnder index inner).2

/-- Below a directory, no entry follows a file of its name, no file has another file's name among
its parents, and every parent of a directory is named by a directory or is a parent of a file. -/
structure WellFormed (index : ZipIndex) (inner : List Char) : Prop where
  last : ∀ entry ∈ index.entries, entry.isDir = false → ∀ rel, entry.name = under inner rel →
    LastOf index.entries entry
  apart : ∀ entry ∈ index.entries, entry.isDir = false → ∀ file ∈ index.entries,
    file.isDir = false → ∀ rel more, entry.name = under inner rel →
      file.name ≠ under inner (rel ++ '/' :: more)
  parents : ∀ entry ∈ index.entries, entry.isDir = true → ∀ parent more,
    entry.name = under inner (parent ++ '/' :: more) →
      (∃ dir ∈ index.entries, dir.isDir = true ∧ dir.name = under inner parent) ∨
        ∃ file ∈ index.entries, file.isDir = false ∧
          ∃ more, file.name = under inner (parent ++ '/' :: more)

/-- Browsing loses nothing below a directory exactly when the entries below it are well formed. -/
theorem browse_iff (index : ZipIndex) (inner : List Char) :
    LosesNothing index inner ↔ WellFormed index inner := by
  have lists := lists_listDir index inner
  have extracts := extracts_entriesUnder index inner
  constructor
  · rintro ⟨_, _, files, parents⟩
    have reached : ∀ entry ∈ index.entries, entry.isDir = false → ∀ rel,
        entry.name = under inner rel → Reached index inner entry.index rel := by
      intro entry member isFile rel named
      exact (files _ _).mpr ((extracts.files _ _).mpr ⟨entry, member, isFile, rfl, named⟩)
    have last : ∀ entry ∈ index.entries, entry.isDir = false → ∀ rel,
        entry.name = under inner rel → LastOf index.entries entry := by
      intro entry member isFile rel named
      obtain ⟨⟨other, otherLast, _, _, sameIndex⟩, _⟩ :=
        (reached_iff index inner _ rel).mp (reached entry member isFile rel named)
      rw [← inj_on_of_nodup_map index.distinct otherLast.mem member sameIndex]
      exact otherLast
    refine ⟨last, ?_, ?_⟩
    · intro entry member isFile file fileMember fileIsFile rel more named below
      obtain ⟨_, shown⟩ := (reached_iff index inner _ _).mp
        (reached file fileMember fileIsFile _ below)
      have isDir := shown rel more rfl entry (last entry member isFile rel named) named
      rw [isFile] at isDir
      cases isDir
    · intro entry member isDir parent more named
      have created := (extracts.dirs _).mpr (.inl ⟨entry, member, isDir, named⟩)
      exact (extracts.dirs parent).mp (parents _ (.inr created) parent more rfl)
  · rintro ⟨last, apart, parents⟩
    refine ⟨lists.distinct, lists.names, fun position rel => ?_, ?_⟩
    · rw [reached_iff, extracts.files]
      constructor
      · rintro ⟨⟨entry, isLast, named, isFile, position⟩, _⟩
        exact ⟨entry, isLast.mem, isFile, position, named⟩
      · rintro ⟨entry, member, isFile, rfl, named⟩
        refine ⟨⟨entry, last entry member isFile rel named, named, isFile, rfl⟩, ?_⟩
        rintro parent more rfl other otherLast otherNamed
        cases isDir : other.isDir with
        | true => rfl
        | false =>
          exact absurd named
            (apart other otherLast.mem isDir entry member isFile parent more otherNamed)
    · rintro path (⟨position, isFile⟩ | isDir) parent more rfl
      · obtain ⟨entry, member, isFile, _, named⟩ := (extracts.files _ _).mp isFile
        exact (extracts.dirs parent).mpr (.inr ⟨entry, member, isFile, more, named⟩)
      · rcases (extracts.dirs _).mp isDir with ⟨entry, member, isDir, named⟩ |
          ⟨entry, member, isFile, further, named⟩
        · exact (extracts.dirs parent).mpr (parents entry member isDir parent more named)
        · refine (extracts.dirs parent).mpr (.inr ⟨entry, member, isFile,
            more ++ '/' :: further, ?_⟩)
          rw [named, append_assoc]
          rfl

/-- An archive with a file `a` in front of a file `a/b`. -/
def hidingIndex : ZipIndex :=
  readIndex [⟨['a'], false, 1, none, false⟩, ⟨['a', '/', 'b'], false, 1, none, false⟩]

theorem hidden_subtree : ¬LosesNothing hidingIndex [] := by
  rintro ⟨_, _, files, _⟩
  have extracted : (1, ['a', '/', 'b']) ∈ (entriesUnder hidingIndex []).1 := by decide
  obtain ⟨_, shown⟩ := (reached_iff hidingIndex [] 1 ['a', '/', 'b']).mp ((files _ _).mpr extracted)
  have isDir := shown ['a'] ['b'] rfl ⟨0, ['a'], false, 1, none, false, by unfold Clean; decide⟩
    ⟨[], _, rfl, by decide⟩ rfl
  cases isDir

end Oryxis.Archive.Browse

/-
This file models the quoting of names for remote archive commands and the commands themselves. A
name in single quotes is one word of the POSIX shell, so the line built for a POSIX host stands for
`sh -c` with one script, and the script for exactly the intended argument lists. A name in double
quotes is given back by the argument rules of Windows exactly if it does not end in a backslash,
which would escape the closing quote.
-/

import Oryxis.Library.Outcome
import Oryxis.Library.Sh
import Oryxis.Library.WindowsArguments

namespace Oryxis.Archive.Quoting

open Library Library.Sh List

/-! ### Quoting -/

/-- What is wrong; an unsafe name is shown behind the message as debug text. -/
inductive ArchiveError where
  | unsupported (message : String)
  | unsafeName (message : String) (name : List Char)
  deriving DecidableEq, Repr

/-- Quote a string as a single-quoted literal of the POSIX shell. -/
def shQuote (s : List Char) : Except ArchiveError (List Char) :=
  if '\n' ∈ s ∨ '\r' ∈ s then
    .error (.unsafeName "name contains a line break and cannot be used in a remote command" s)
  else
    .ok ('\'' :: (s.flatMap (fun c => if c = '\'' then ['\'', '\\', '\'', '\''] else [c]) ++ ['\'']))

def isControl (c : Char) : Bool := c.toNat < 0x20 || (0x7f ≤ c.toNat && c.toNat < 0xa0)

def backtick : Char := Char.ofNat 0x60

def badWindowsName (what : String) (s : List Char) : ArchiveError :=
  .unsafeName ("name contains " ++ what ++ " and cannot be used in a remote Windows command") s

/-- Quote a string as a double-quoted argument of a Windows command line. -/
def winQuote (s : List Char) : Except ArchiveError (List Char) :=
  if s.any isControl then .error (badWindowsName "control characters" s)
  else if '"' ∈ s then .error (badWindowsName "a double quote" s)
  else if '%' ∈ s then
    .error (badWindowsName "a percent sign (cmd.exe variable expansion)" s)
  else if '$' ∈ s then
    .error (badWindowsName "a dollar sign (PowerShell variable expansion)" s)
  else if backtick ∈ s then
    .error (badWindowsName "a backtick (PowerShell escape / subexpression)" s)
  else .ok ('"' :: (s ++ ['"']))

/-! ### Commands -/

inductive RemoteShell where
  | posix
  | windows
  deriving DecidableEq, Repr

structure ArchiveTools where
  tar : Bool
  bsdtar : Bool
  unzip : Bool
  zip : Bool

inductive ArchiveKind where
  | zip
  | tarGz
  | tar
  | tarBz2
  | tarXz
  | tarZst

def ArchiveKind.extension : ArchiveKind → String
  | .zip => ".zip"
  | .tarGz => ".tar.gz"
  | .tar => ".tar"
  | .tarBz2 => ".tar.bz2"
  | .tarXz => ".tar.xz"
  | .tarZst => ".tar.zst"

def canExtract (shell : RemoteShell) (tools : ArchiveTools) : ArchiveKind → Bool
  | .zip => tools.unzip || tools.bsdtar || (shell == .windows && tools.tar)
  | _ => tools.tar

def canCompress (shell : RemoteShell) (tools : ArchiveTools) : ArchiveKind → Bool
  | .zip => tools.zip || tools.bsdtar || (shell == .windows && tools.tar)
  | .tarGz => tools.tar
  | _ => false

/-- The form of an absolute path that Windows tools accept. -/
def windowsNativePath (sftpPath : List Char) : List Char :=
  match sftpPath with
  | '/' :: drive :: ':' :: rest => if drive.isAlpha then drive :: ':' :: rest else sftpPath
  | _ => sftpPath

/-- A command in the form every login shell parses alike. -/
def wrapPosix (inner : List Char) : Except ArchiveError (List Char) := do
  let quoted ← shQuote inner
  pure ("sh -c ".toList ++ quoted)

/-- The command that extracts an archive into a directory. -/
def extractCommand (shell : RemoteShell) (tools : ArchiveTools) (kind : ArchiveKind)
    (archiveAbs destAbs : List Char) : Except ArchiveError (List Char) :=
  if !canExtract shell tools kind then
    .error (.unsupported ("no remote tool available to extract " ++ kind.extension))
  else
    match shell with
    | .posix => do
      let a ← shQuote archiveAbs
      let d ← shQuote destAbs
      let inner :=
        match kind with
        | .zip =>
          if tools.unzip then "unzip -o -qq ".toList ++ a ++ " -d ".toList ++ d
          else "tar -xf ".toList ++ a ++ " -C ".toList ++ d
        | .tarGz => "tar -xzf ".toList ++ a ++ " -C ".toList ++ d
        | .tar | .tarBz2 | .tarXz | .tarZst => "tar -xf ".toList ++ a ++ " -C ".toList ++ d
      wrapPosix inner
    | .windows => do
      let a ← winQuote (windowsNativePath archiveAbs)
      let d ← winQuote (windowsNativePath destAbs)
      if tools.tar then pure ("tar -xf ".toList ++ a ++ " -C ".toList ++ d)
      else
        match kind with
        | .zip => pure ("unzip -o -qq ".toList ++ a ++ " -d ".toList ++ d)
        -- not reached: the other kinds need `tar`
        | _ => .error (.unsupported "can_extract gated")

/-- The prefix keeps a leading dash from parsing as an option. -/
def rel (name : List Char) : List Char := "./".toList ++ name

/-- Item names quoted and joined by blanks. -/
def quotedList (quote : List Char → Except ArchiveError (List Char)) (items : List (List Char)) :
    Except ArchiveError (List Char) := do
  let parts ← items.mapM fun item => quote (rel item)
  pure (joinBlank parts)

/-- A path with its trailing slashes taken off. -/
def trimSlashes (path : List Char) : List Char := (path.reverse.dropWhile (· == '/')).reverse

/-- The path of a file in a directory. -/
def inDirectory (cwd outName : List Char) : List Char :=
  trimSlashes cwd ++ "/".toList ++ outName

/-- The script that creates an archive on a POSIX host, the directory being quoted. -/
def compressScript (tools : ArchiveTools) (kind : ArchiveKind) (cwdAbs cwd outName : List Char)
    (items : List (List Char)) : Except ArchiveError (List Char) :=
  match kind with
  | .zip =>
    if tools.zip then do
      let out ← shQuote (rel outName)
      let list ← quotedList shQuote items
      pure ("cd ".toList ++ cwd ++ " && zip -r -q ".toList ++ out ++ " ".toList ++ list)
    else do
      let out ← shQuote (inDirectory cwdAbs outName)
      let list ← quotedList shQuote items
      pure ("tar -a -cf ".toList ++ out ++ " -C ".toList ++ cwd ++ " ".toList ++ list)
  | .tarGz => do
    let out ← shQuote (inDirectory cwdAbs outName)
    let list ← quotedList shQuote items
    pure ("tar -czf ".toList ++ out ++ " -C ".toList ++ cwd ++ " ".toList ++ list)
  -- not reached: the other kinds cannot be created
  | .tar | .tarBz2 | .tarXz | .tarZst => .error (.unsupported "can_compress gated")

/-- The command that creates an archive of items in a directory. -/
def compressCommand (shell : RemoteShell) (tools : ArchiveTools) (kind : ArchiveKind)
    (cwdAbs outName : List Char) (items : List (List Char)) : Except ArchiveError (List Char) :=
  if !canCompress shell tools kind then
    .error (.unsupported ("no remote tool available to create " ++ kind.extension))
  else if items = [] then .error (.unsupported "nothing to compress")
  else
    match shell with
    | .posix => do
      let cwd ← shQuote cwdAbs
      let inner ← compressScript tools kind cwdAbs cwd outName items
      wrapPosix inner
    | .windows => do
      let cwdNative := windowsNativePath cwdAbs
      let cwd ← winQuote cwdNative
      let out ← winQuote (inDirectory cwdNative outName)
      let list ← quotedList winQuote items
      match kind with
      | .zip => pure ("tar -a -cf ".toList ++ out ++ " -C ".toList ++ cwd ++ " ".toList ++ list)
      | .tarGz => pure ("tar -czf ".toList ++ out ++ " -C ".toList ++ cwd ++ " ".toList ++ list)
      -- not reached: the other kinds cannot be created
      | _ => .error (.unsupported "can_compress gated")

/-! ### Names are single words -/

/-- A name between single quotes, with what was read of it before. -/
theorem spells_quoted (s before : List Char) (quoteless : '\'' ∉ before) :
    ∃ pieces, wordText pieces = before ++ s ∧
      Spells ('\'' :: (before ++ (s.flatMap (fun c => if c = '\'' then ['\'', '\\', '\'', '\'']
        else [c]) ++ ['\'']))) (.quotation :: pieces) := by
  have texts : ∀ text : List Char, wordText (text.map (.literal true)) = text := by
    intro text
    induction text with
    | nil => rfl
    | cons letter rest ih =>
      rw [map_cons, wordText, flatMap_cons]
      exact congrArg (letter :: ·) ih
  induction s generalizing before with
  | nil =>
    refine ⟨before.map (.literal true), ?_, spells_single quoteless⟩
    rw [texts, append_nil]
  | cons c s ih =>
    rw [flatMap_cons]
    by_cases quote : c = '\''
    · obtain ⟨pieces, read, spells⟩ := ih [] not_mem_nil
      have joined := ((spells_single quoteless).append
        (spells_escaped (by decide : '\'' ≠ '\n'))).append spells
      refine ⟨before.map (.literal true) ++ [.literal true '\''] ++ .quotation :: pieces, ?_, ?_⟩
      · rw [quote, wordText, flatMap_append, flatMap_append, ← wordText, ← wordText,
          texts, flatMap_cons, ← wordText, read]
        simp only [wordText, Piece.text, flatMap_cons, flatMap_nil, append_assoc,
          nil_append, cons_append]
      · rw [if_pos quote]
        simpa only [nil_append, append_assoc, cons_append] using joined
    · have longer : '\'' ∉ before ++ [c] := by
        rw [mem_append, mem_singleton]
        rintro (among | same)
        · exact quoteless among
        · exact quote same.symm
      obtain ⟨pieces, read, spells⟩ := ih (before ++ [c]) longer
      refine ⟨pieces, ?_, ?_⟩
      · rw [read, append_assoc]
        rfl
      · rw [if_neg quote]
        simpa only [append_assoc] using spells

variable {s quoted : List Char}

/-- What is quoted stands for one word, the string itself. -/
theorem wordOf_shQuote (accepted : shQuote s = .ok quoted) :
    WordOf quoted s := by
  rw [shQuote] at accepted
  split at accepted
  · cases accepted
  · cases accepted
    obtain ⟨pieces, read, spells⟩ := spells_quoted s [] not_mem_nil
    exact ⟨_, spells, cons_ne_nil _ _, read⟩

variable {items : List (List Char)}

theorem quotedList_words {list : List Char} (accepted : quotedList shQuote items = .ok list) :
    ∃ parts, list = joinBlank parts ∧ List.Forall₂ WordOf parts (items.map rel) := by
  obtain ⟨parts, quoted, joined⟩ := bind_eq_ok.mp accepted
  cases joined
  refine ⟨parts, rfl, ?_⟩
  clear accepted
  induction items generalizing parts with
  | nil =>
    cases quoted
    exact .nil
  | cons item items ih =>
    rw [mapM_cons] at quoted
    obtain ⟨first, one, rest⟩ := bind_eq_ok.mp quoted
    obtain ⟨others, more, same⟩ := bind_eq_ok.mp rest
    cases same
    exact .cons (wordOf_shQuote one) (ih others more)

/-! ### Commands stand for their argument lists -/

/-- The arguments an extraction is meant to have. -/
def extractArguments (tools : ArchiveTools) (kind : ArchiveKind) (archive dest : List Char) :
    List (List Char) :=
  match kind with
  | .zip =>
    if tools.unzip then
      ["unzip".toList, "-o".toList, "-qq".toList, archive, "-d".toList, dest]
    else ["tar".toList, "-xf".toList, archive, "-C".toList, dest]
  | .tarGz => ["tar".toList, "-xzf".toList, archive, "-C".toList, dest]
  | .tar | .tarBz2 | .tarXz | .tarZst => ["tar".toList, "-xf".toList, archive, "-C".toList, dest]

/-- The commands a compression is meant to run, with their arguments. -/
def compressArguments (tools : ArchiveTools) (kind : ArchiveKind) (cwd outName : List Char)
    (items : List (List Char)) : List (List (List Char)) :=
  match kind with
  | .zip =>
    if tools.zip then
      [["cd".toList, cwd],
        "zip".toList :: "-r".toList :: "-q".toList :: rel outName :: items.map rel]
    else
      ["tar".toList :: "-a".toList :: "-cf".toList :: inDirectory cwd outName :: "-C".toList
        :: cwd :: items.map rel]
  | .tarGz =>
    ["tar".toList :: "-czf".toList :: inDirectory cwd outName :: "-C".toList :: cwd
      :: items.map rel]
  | .tar | .tarBz2 | .tarXz | .tarZst => []

/-- A word of the fixed part of a command. -/
theorem wordOf_fixed {text : List Char} (some_ : text ≠ []) (ordinary : text.all isOrdinary) :
    WordOf text text :=
  wordOf_plain some_ (all_eq_true.mp ordinary)

variable {words : List (List Char)}

variable {texts : List (List Char)}

/-- A command with a fixed name. -/
theorem stands_fixed {name : List Char} (some_ : name ≠ []) (ordinary : name.all isOrdinary)
    (names : namesCommand (name.map (.literal false)) = true)
    (rest : List.Forall₂ WordOf texts words) : Stands (name :: texts) (name :: words) := by
  have stands := Stands.command (spells_plain some_ (all_eq_true.mp ordinary))
    (fun none => some_ (map_eq_nil_iff.mp none)) names rest
  rw [wordText_plain] at stands
  exact stands

variable {line : List Char}

variable {inner : List Char}

/-- The line for a POSIX host is `sh -c` with the script. -/
theorem wrapPosix_arguments (wrapped : wrapPosix inner = .ok line) :
    argumentLists line = some [["sh".toList, "-c".toList, inner]] := by
  obtain ⟨quoted, accepted, same⟩ := bind_eq_ok.mp wrapped
  cases same
  have stands : Stands ["sh".toList, "-c".toList, quoted] ["sh".toList, "-c".toList, inner] :=
    stands_fixed (by decide) (by decide) (by decide)
      (.cons (wordOf_fixed (by decide) (by decide)) (.cons (wordOf_shQuote accepted) .nil))
  have line : argumentLists (joinBlank (joinAnd [["sh".toList, "-c".toList, quoted]]))
      = some [["sh".toList, "-c".toList, inner]] :=
    argumentLists_line (cons_ne_nil _ _) (.cons stands .nil)
  exact line

/-- One command that is the whole of a script. -/
theorem script_arguments (stands : Stands texts words) :
    argumentLists (joinBlank texts) = some [words] := by
  have line : argumentLists (joinBlank (joinAnd [texts])) = some [words] :=
    argumentLists_line (cons_ne_nil _ _) (.cons stands .nil)
  exact line

variable {tools : ArchiveTools} {kind : ArchiveKind}

/-- The line that extracts an archive stands for the intended arguments. -/
theorem extractCommand_arguments {archive dest : List Char}
    (built : extractCommand .posix tools kind archive dest = .ok line) :
    ∃ inner, argumentLists line = some [["sh".toList, "-c".toList, inner]] ∧
      argumentLists inner = some [extractArguments tools kind archive dest] := by
  rw [extractCommand] at built
  split at built
  · cases built
  · obtain ⟨a, archiveQuoted, built⟩ := bind_eq_ok.mp built
    obtain ⟨d, destQuoted, wrapped⟩ := bind_eq_ok.mp built
    have archiveWord := wordOf_shQuote archiveQuoted
    have destWord := wordOf_shQuote destQuoted
    refine ⟨_, wrapPosix_arguments wrapped, ?_⟩
    have unzip : argumentLists ("unzip -o -qq ".toList ++ a ++ " -d ".toList ++ d)
        = some [["unzip".toList, "-o".toList, "-qq".toList, archive, "-d".toList, dest]] := by
      have script := script_arguments (stands_fixed (by decide : "unzip".toList ≠ [])
        (by decide) (by decide) (.cons (wordOf_fixed (by decide : "-o".toList ≠ []) (by decide))
          (.cons (wordOf_fixed (by decide : "-qq".toList ≠ []) (by decide))
            (.cons archiveWord (.cons (wordOf_fixed (by decide : "-d".toList ≠ []) (by decide))
              (.cons destWord .nil))))))
      simpa [joinBlank] using script
    have tar (option : List Char) (some_ : option ≠ []) (ordinary : option.all isOrdinary) :
        argumentLists ("tar ".toList ++ option ++ " ".toList ++ a ++ " -C ".toList ++ d)
          = some [["tar".toList, option, archive, "-C".toList, dest]] := by
      have script := script_arguments (stands_fixed (by decide : "tar".toList ≠ [])
        (by decide) (by decide) (.cons (wordOf_fixed some_ ordinary)
          (.cons archiveWord (.cons (wordOf_fixed (by decide : "-C".toList ≠ []) (by decide))
            (.cons destWord .nil)))))
      simpa [joinBlank] using script
    have tarXf := tar "-xf".toList (by decide) (by decide)
    cases kind with
    | zip =>
      by_cases preferred : tools.unzip = true
      · simp only [extractArguments, preferred, if_true]
        exact unzip
      · simp only [extractArguments, preferred, if_false]
        exact tarXf
    | tarGz => exact tar "-xzf".toList (by decide) (by decide)
    | tar | tarBz2 | tarXz | tarZst => exact tarXf

variable {cwd : List Char}

variable {directory : List Char}

/-- An archive command of `tar` and the names behind it. -/
theorem tar_arguments (front : List (List Char)) {parts : List (List Char)} {out file : List Char}
    (frontWords : List.Forall₂ WordOf front front) (outWord : WordOf out file)
    (cwdWord : WordOf directory cwd) (some_ : parts ≠ []) (names : List.Forall₂ WordOf parts words) :
    argumentLists (joinBlank ("tar".toList :: (front ++ [out, "-C".toList, directory]))
        ++ ' ' :: joinBlank parts)
      = some [("tar".toList :: front) ++ file :: "-C".toList :: cwd :: words] := by
  have directoryWords : List.Forall₂ WordOf [out, "-C".toList, directory] [file, "-C".toList, cwd] :=
    .cons outWord (.cons (wordOf_fixed (by decide) (by decide)) (.cons cwdWord .nil))
  have script := script_arguments (stands_fixed (by decide : "tar".toList ≠ []) (by decide)
    (by decide) (rel_append (rel_append frontWords directoryWords) names))
  rw [← cons_append, joinBlank_append (cons_ne_nil _ _) some_] at script
  have joined : ("tar".toList :: front) ++ file :: "-C".toList :: cwd :: words
      = "tar".toList :: (front ++ [file, "-C".toList, cwd] ++ words) := by
    rw [append_assoc]
    rfl
  rw [joined]
  exact script

variable {outName : List Char}

/-- The script that creates an archive stands for the intended commands. -/
theorem compressScript_arguments (someItems : items ≠ []) (cwdWord : WordOf directory cwd)
    (script : compressScript tools kind cwd directory outName items = .ok inner) :
    argumentLists inner = some (compressArguments tools kind cwd outName items) := by
  have tail {parts : List (List Char)} (words : List.Forall₂ WordOf parts (items.map rel)) :
      parts ≠ [] := by
    rintro rfl
    obtain ⟨item, others, rfl⟩ := exists_cons_of_ne_nil someItems
    cases words
  have fixed {text : List Char} (some_ : text ≠ []) (ordinary : text.all isOrdinary) :
      WordOf text text := wordOf_fixed some_ ordinary
  cases kind with
  | zip =>
    rw [compressScript] at script
    by_cases preferred : tools.zip = true
    · rw [if_pos preferred] at script
      obtain ⟨out, outQuoted, script⟩ := bind_eq_ok.mp script
      obtain ⟨list, listQuoted, same⟩ := bind_eq_ok.mp script
      cases same
      obtain ⟨parts, rfl, words⟩ := quotedList_words listQuoted
      have enter : Stands ["cd".toList, directory] ["cd".toList, cwd] :=
        stands_fixed (by decide) (by decide) (by decide) (.cons cwdWord .nil)
      have zip : Stands ("zip".toList :: "-r".toList :: "-q".toList :: out :: parts)
          ("zip".toList :: "-r".toList :: "-q".toList :: rel outName :: items.map rel) :=
        stands_fixed (by decide) (by decide) (by decide)
          (.cons (fixed (by decide) (by decide)) (.cons (fixed (by decide) (by decide))
            (.cons (wordOf_shQuote outQuoted) words)))
      have line := argumentLists_line (cons_ne_nil _ _) (.cons enter (.cons zip .nil))
      rw [compressArguments, if_pos preferred, ← line]
      obtain ⟨first, others, rfl⟩ := exists_cons_of_ne_nil (tail words)
      simp [joinAnd, joinBlank]
    · rw [if_neg preferred] at script
      obtain ⟨out, outQuoted, script⟩ := bind_eq_ok.mp script
      obtain ⟨list, listQuoted, same⟩ := bind_eq_ok.mp script
      cases same
      obtain ⟨parts, rfl, words⟩ := quotedList_words listQuoted
      have line := tar_arguments ["-a".toList, "-cf".toList]
        (.cons (fixed (by decide) (by decide)) (.cons (fixed (by decide) (by decide)) .nil))
        (wordOf_shQuote outQuoted) cwdWord (tail words) words
      rw [compressArguments, if_neg preferred]
      simpa [joinBlank] using line
  | tarGz =>
    rw [compressScript] at script
    obtain ⟨out, outQuoted, script⟩ := bind_eq_ok.mp script
    obtain ⟨list, listQuoted, same⟩ := bind_eq_ok.mp script
    cases same
    obtain ⟨parts, rfl, words⟩ := quotedList_words listQuoted
    have line := tar_arguments ["-czf".toList]
      (.cons (fixed (by decide) (by decide)) .nil) (wordOf_shQuote outQuoted) cwdWord
      (tail words) words
    rw [compressArguments]
    simpa [joinBlank] using line
  | tar | tarBz2 | tarXz | tarZst =>
    rw [compressScript] at script
    cases script

/-- The line that creates an archive stands for the intended commands. -/
theorem compressCommand_arguments
    (built : compressCommand .posix tools kind cwd outName items = .ok line) :
    ∃ inner, argumentLists line = some [["sh".toList, "-c".toList, inner]] ∧
      argumentLists inner = some (compressArguments tools kind cwd outName items) := by
  rw [compressCommand] at built
  split at built
  · cases built
  · split at built
    · cases built
    · rename_i someItems
      obtain ⟨directory, cwdQuoted, built⟩ := bind_eq_ok.mp built
      obtain ⟨inner, script, wrapped⟩ := bind_eq_ok.mp built
      refine ⟨inner, wrapPosix_arguments wrapped, ?_⟩
      exact compressScript_arguments someItems (wordOf_shQuote cwdQuoted) script

/-! ### Names for Windows -/

/-- A name that is accepted stands between two double quotes and has none inside. -/
theorem winQuote_eq_ok (accepted : winQuote s = .ok quoted) :
    quoted = '"' :: (s ++ ['"']) ∧ '"' ∉ s := by
  rw [winQuote] at accepted
  split at accepted
  · cases accepted
  · split at accepted
    · cases accepted
    · rename_i quoteless
      split at accepted
      · cases accepted
      · split at accepted
        · cases accepted
        · split at accepted
          · cases accepted
          · cases accepted
            exact ⟨rfl, quoteless⟩

/-- Quoted for the POSIX shell a name is one word, and the commands for a POSIX host stand for
the intended arguments on both levels; quoted for Windows a name is given back exactly if it does
not end in a backslash. -/
theorem quoting_inert_iff (s quoted : List Char) (tools : ArchiveTools)
    (kind : ArchiveKind) :
    (shQuote s = .ok quoted →
      ∃ pieces, tokenize quoted = some [.word pieces] ∧ wordText pieces = s) ∧
    (∀ archive dest line, extractCommand .posix tools kind archive dest = .ok line →
      ∃ inner, argumentLists line = some [["sh".toList, "-c".toList, inner]] ∧
        argumentLists inner = some [extractArguments tools kind archive dest]) ∧
    (∀ cwd outName items line, compressCommand .posix tools kind cwd outName items = .ok line →
      ∃ inner, argumentLists line = some [["sh".toList, "-c".toList, inner]] ∧
        argumentLists inner = some (compressArguments tools kind cwd outName items)) ∧
    (winQuote s = .ok quoted →
      (Library.WindowsArguments.commandLine quoted = [s] ↔ s.getLast? ≠ some '\\')) := by
  refine ⟨?_, ?_, ?_, ?_⟩
  · intro accepted
    obtain ⟨pieces, spells, some_, read⟩ := wordOf_shQuote accepted
    have line : tokenize (joinBlank [quoted]) = some [.word pieces] :=
      tokenize_joinBlank (.cons (spells.lexes some_) .nil)
    exact ⟨pieces, line, read⟩
  · exact fun _ _ _ built => extractCommand_arguments built
  · exact fun _ _ _ _ built => compressCommand_arguments built
  · intro accepted
    obtain ⟨rfl, quoteless⟩ := winQuote_eq_ok accepted
    exact Library.WindowsArguments.commandLine_quoted quoteless

/-- A directory that ends in a backslash takes the closing quote with it. -/
theorem trailing_backslash :
    winQuote "C:\\out\\".toList = .ok "\"C:\\out\\\"".toList ∧
      Library.WindowsArguments.commandLine "\"C:\\out\\\"".toList ≠ ["C:\\out\\".toList] := by
  decide +kernel

end Oryxis.Archive.Quoting

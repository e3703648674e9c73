/-
This file is the import of hosts from OpenSSH's configuration file, and what its blocks mean.

A block starts at a `Host` or a `Match` line and ends at the next one. The import knows where a
`Host` line is and nothing of `Match`, so the lines of a `Match` block go to the host in front of
it, and a keyword that is given twice takes the last value where OpenSSH takes the first. What is
imported is therefore what the file says exactly when, for each block, the last reading up to the
next `Host` line is the first one in the block itself.
-/

import Oryxis.Library.Decimal
import Oryxis.Library.Text

namespace Oryxis.SshConfig

open Library List

/-! ### Reading a line -/

/-- `str::trim_matches` with one letter. -/
def trimMatches (c : Char) (text : List Char) : List Char :=
  (text.dropWhile (· = c)).rdropWhile (· = c)

def isSeparator (c : Char) : Bool := isWhitespace c || c = '='

/-- The keyword of a line, and its value with the quotes it has. -/
def splitDirective (line : List Char) : Option (List Char × List Char) :=
  if line.any isSeparator then
    let key := trimmed (line.takeWhile fun c => !isSeparator c)
    let value := trimmed ((line.dropWhile fun c => !isSeparator c).dropWhile isSeparator)
    if key.isEmpty then none else some (key, value)
  else none

def splitKeyValue (line : List Char) : Option (List Char × List Char) :=
  (splitDirective line).map fun parts => (parts.1, trimMatches '"' parts.2)

def isWildcard (hostAlias : List Char) : Bool := hostAlias.contains '*' || hostAlias.contains '?'

/-- The first piece between white space, or nothing. -/
def firstWord (text : List Char) : List Char :=
  (text.dropWhile isWhitespace).takeWhile fun c => !isWhitespace c

/-! ### Paths -/

/-- `Path::join`. -/
def join (directory path : List Char) : List Char :=
  if path.head? = some '/' then path
  else if directory.isEmpty || directory.getLast? = some '/' then directory ++ path
  else directory ++ '/' :: path

def expandTilde (home : Option (List Char)) (path : List Char) : List Char :=
  match stripPrefix "~/".toList path, home with
  | some rest, some home => join home rest
  | _, _ =>
    match home with
    | some home => if path = ['~'] then home else path
    | none => path

/-! ### The import -/

inductive AddressFamily
  | auto
  | v4
  | v6
  deriving DecidableEq, Repr

structure SshConfigHost where
  hostAlias : List Char
  hostname : Option (List Char)
  port : Option Nat
  user : Option (List Char)
  identityFiles : List (List Char)
  proxyJump : Option (List Char)
  proxyCommand : Option (List Char)
  forwardAgent : Bool
  forwardX11 : Bool
  addressFamily : AddressFamily
  deriving DecidableEq, Repr

/-- An entry with nothing but its alias. -/
def newHost (hostAlias : List Char) : SshConfigHost where
  hostAlias := hostAlias
  hostname := none
  port := none
  user := none
  identityFiles := []
  proxyJump := none
  proxyCommand := none
  forwardAgent := false
  forwardX11 := false
  addressFamily := .auto

def isYes (value : List Char) : Bool := eqIgnoreAsciiCase value "yes".toList

def readFamily (value : List Char) : AddressFamily :=
  if eqIgnoreAsciiCase value "inet".toList then .v4
  else if eqIgnoreAsciiCase value "inet6".toList then .v6
  else .auto

/-- The first hop of a chain, if it is not empty. -/
def firstHop (value : List Char) : Option (List Char) :=
  let first := trimmed (value.takeWhile (· ≠ ','))
  if first.isEmpty then none else some first

/-- What a line under a `Host` line does to the entry; the keyword is in small letters. -/
def SshConfigHost.set (home : Option (List Char)) (host : SshConfigHost)
    (keyword value : List Char) : SshConfigHost :=
  if keyword = "hostname".toList then { host with hostname := some value }
  else if keyword = "port".toList then { host with port := parseUnsigned (2 ^ 16) value }
  else if keyword = "user".toList then { host with user := some value }
  else if keyword = "identityfile".toList then
    { host with identityFiles := host.identityFiles ++ [expandTilde home value] }
  else if keyword = "proxyjump".toList then
    match firstHop value with
    | some first => { host with proxyJump := some first }
    | none => host
  else if keyword = "proxycommand".toList then { host with proxyCommand := some value }
  else if keyword = "forwardagent".toList then { host with forwardAgent := isYes value }
  else if keyword = "forwardx11".toList ∨ keyword = "forwardx11trusted".toList then
    { host with forwardX11 := host.forwardX11 || isYes value }
  else if keyword = "addressfamily".toList then
    { host with addressFamily := readFamily value }
  else host

structure ParseState where
  hosts : List SshConfigHost
  current : Option SshConfigHost

/-- The entries with the one that is being read, unless it is a template. -/
def ParseState.finish (state : ParseState) : List SshConfigHost :=
  match state.current with
  | some prev => if isWildcard prev.hostAlias then state.hosts else state.hosts ++ [prev]
  | none => state.hosts

def ParseState.read (home : Option (List Char)) (state : ParseState) (raw : List Char) :
    ParseState :=
  let line := trimmed raw
  if line.isEmpty || line.head? = some '#' then state
  else
    match splitKeyValue line with
    | none => state
    | some (key, value) =>
      if eqIgnoreAsciiCase key "Host".toList then
        ⟨state.finish, some (newHost (firstWord value))⟩
      else
        match state.current with
        | none => state
        | some host => { state with current := some (host.set home (key.map Char.toLower) value) }

def parse (home : Option (List Char)) (text : List Char) : List SshConfigHost :=
  ((lines text).foldl (ParseState.read home) ⟨[], none⟩).finish

/-! ### What the file says -/

/-- A line that gives a keyword a value: the keyword in small letters, the value as written. -/
structure Directive where
  keyword : List Char
  value : List Char

def directive (raw : List Char) : Option Directive :=
  let line := trimmed raw
  if line.isEmpty || line.head? = some '#' then none
  else (splitDirective line).map fun parts => ⟨parts.1.map Char.toLower, parts.2⟩

def directives (text : List Char) : List Directive := (lines text).filterMap directive

def Directive.isHost (given : Directive) : Bool := given.keyword = "host".toList

def Directive.isHeader (given : Directive) : Bool :=
  given.isHost || given.keyword = "match".toList

/-- A `Host` line with the lines of its block, and the lines of the `Match` blocks between it and
the next `Host` line. -/
structure Block where
  patterns : List Char
  own : List Directive
  behind : List Directive

def hostBlocks : List Directive → List Block
  | [] => []
  | given :: rest =>
    if given.isHost then
      { patterns := given.value
        own := rest.takeWhile fun next => !next.isHeader
        behind := (rest.dropWhile fun next => !next.isHeader).takeWhile fun next => !next.isHost }
        :: hostBlocks rest
    else hostBlocks rest

/-- What is read of a pattern up to the white space that ends it. Quotes group and are not part
of it. -/
def scanPattern : Bool → List Char → List Char
  | _, [] => []
  | quoted, letter :: rest =>
    if letter = '"' then scanPattern (!quoted) rest
    else if isWhitespace letter && !quoted then []
    else letter :: scanPattern quoted rest

/-- The first pattern that is not empty. -/
def firstPattern : Bool → List Char → List Char
  | _, [] => []
  | quoted, letter :: rest =>
    if letter = '"' then firstPattern (!quoted) rest
    else if isWhitespace letter && !quoted then firstPattern false rest
    else letter :: scanPattern quoted rest

def unquote (value : List Char) : List Char := value.filter (· ≠ '"')

/-- The values a keyword is given, as they are written. -/
def values (keyword : String) (block : List Directive) : List (List Char) :=
  block.filterMap fun given =>
    if given.keyword = keyword.toList then some given.value else none

/-- What a block says of its host: the first value of a keyword, all identity files. A proxy
command stands as it is written. Three switches keep the rules they are read by here, the last
one and any one. -/
def Block.means (home : Option (List Char)) (block : Block) : Option SshConfigHost :=
  if isWildcard (firstPattern false block.patterns) then none
  else some
    { hostAlias := firstPattern false block.patterns
      hostname := (values "hostname" block.own).head?.map unquote
      port := (values "port" block.own).head?.bind fun value =>
        parseUnsigned (2 ^ 16) (unquote value)
      user := (values "user" block.own).head?.map unquote
      identityFiles := (values "identityfile" block.own).map fun value =>
        expandTilde home (unquote value)
      proxyJump := (values "proxyjump" block.own).head?.bind fun value =>
        firstHop (unquote value)
      proxyCommand := (values "proxycommand" block.own).head?
      forwardAgent := ((values "forwardagent" block.own).getLast?.map fun value =>
        isYes (unquote value)).getD false
      forwardX11 := (values "forwardx11" block.own ++ values "forwardx11trusted" block.own).any
        fun value => isYes (unquote value)
      addressFamily := ((values "addressfamily" block.own).getLast?.map fun value =>
        readFamily (unquote value)).getD .auto }

def intended (home : Option (List Char)) (text : List Char) : List SshConfigHost :=
  (hostBlocks (directives text)).filterMap (Block.means home)

/-! ### The blocks the import sees -/

def SshConfigHost.take (home : Option (List Char)) (host : SshConfigHost) (given : Directive) :
    SshConfigHost :=
  host.set home given.keyword (trimMatches '"' given.value)

/-- A block with all lines up to the next `Host` line. -/
def Block.lines (block : Block) : List Directive := block.own ++ block.behind

def Block.readAlias (block : Block) : List Char := firstWord (trimMatches '"' block.patterns)

def Block.imported (home : Option (List Char)) (block : Block) : SshConfigHost :=
  block.lines.foldl (SshConfigHost.take home) (newHost block.readAlias)

/-- An entry that is not a template. -/
def SshConfigHost.kept (host : SshConfigHost) : Option SshConfigHost :=
  if isWildcard host.hostAlias then none else some host

theorem ParseState.finish_eq (state : ParseState) :
    state.finish = state.hosts ++ (state.current.bind SshConfigHost.kept).toList := by
  rw [finish]
  cases state.current with
  | none => exact (append_nil _).symm
  | some prev =>
    show (if isWildcard prev.hostAlias then state.hosts else state.hosts ++ [prev]) =
      _ ++ (if isWildcard prev.hostAlias then none else some prev).toList
    split_ifs
    · exact (append_nil _).symm
    · rfl

/-- What a line that gives a keyword a value does. -/
def ParseState.follow (home : Option (List Char)) (state : ParseState) (given : Directive) :
    ParseState :=
  if given.isHost then
    ⟨state.finish, some (newHost (firstWord (trimMatches '"' given.value)))⟩
  else { state with current := state.current.map fun host => host.take home given }

theorem ParseState.read_eq (home : Option (List Char)) (state : ParseState) (raw : List Char) :
    state.read home raw = ((directive raw).map (state.follow home)).getD state := by
  rw [read, directive]
  split_ifs with skipped
  · rfl
  · rw [splitKeyValue]
    cases splitDirective (trimmed raw) with
    | none => rfl
    | some parts =>
      obtain ⟨key, value⟩ := parts
      show (if eqIgnoreAsciiCase key "Host".toList then _ else _) =
        if (Directive.mk (key.map Char.toLower) value).isHost then _ else _
      have asked : (Directive.mk (key.map Char.toLower) value).isHost =
          eqIgnoreAsciiCase key "Host".toList := rfl
      rw [asked]
      split_ifs with header
      · rfl
      · obtain ⟨hosts, current⟩ := state
        cases current <;> rfl

theorem foldl_read (home : Option (List Char)) (raws : List (List Char)) (state : ParseState) :
    raws.foldl (ParseState.read home) state =
      (raws.filterMap directive).foldl (ParseState.follow home) state := by
  induction raws generalizing state with
  | nil => rfl
  | cons raw raws inductionHypothesis =>
    rw [foldl_cons, inductionHypothesis, ParseState.read_eq]
    cases given : directive raw with
    | none =>
      rw [filterMap_cons_none given]
      rfl
    | some given' =>
      rw [filterMap_cons_some given, foldl_cons]
      rfl

/-- A block's own lines and those behind it are all up to the next `Host` line. -/
theorem takeWhile_header_append (rest : List Directive) :
    (rest.takeWhile fun next => !next.isHeader) ++
        ((rest.dropWhile fun next => !next.isHeader).takeWhile fun next => !next.isHost) =
      rest.takeWhile fun next => !next.isHost := by
  induction rest with
  | nil => rfl
  | cons next rest inductionHypothesis =>
    by_cases header : next.isHeader
    · rw [takeWhile_cons_of_neg (by rw [header]; decide),
        dropWhile_cons_of_neg (by rw [header]; decide)]
      rfl
    · have other : next.isHost = false := by
        rw [Directive.isHeader, Bool.or_eq_true, not_or] at header
        exact Bool.eq_false_iff.mpr header.1
      rw [takeWhile_cons_of_pos (by simp only [header, Bool.not_false]),
        dropWhile_cons_of_pos (by simp only [header, Bool.not_false]),
        cons_append, inductionHypothesis,
        takeWhile_cons_of_pos (by rw [other]; decide)]

/-- The entries of a run: the one that is being read with the lines up to the next `Host` line,
and one for each block behind them. -/
theorem finish_foldl_follow (home : Option (List Char)) (given : List Directive)
    (hosts : List SshConfigHost) (current : Option SshConfigHost) :
    (given.foldl (ParseState.follow home) ⟨hosts, current⟩).finish =
      hosts ++ (current.bind fun host => ((given.takeWhile fun next => !next.isHost).foldl
            (SshConfigHost.take home) host).kept).toList
        ++ (hostBlocks given).flatMap fun block => (block.imported home).kept.toList := by
  induction given generalizing hosts current with
  | nil =>
    rw [foldl_nil, ParseState.finish_eq]
    exact (append_nil _).symm
  | cons next given inductionHypothesis =>
    rw [foldl_cons, hostBlocks]
    by_cases header : next.isHost
    · rw [if_pos header, ParseState.follow, if_pos header, inductionHypothesis,
        ParseState.finish_eq, takeWhile_cons_of_neg (by rw [header]; decide),
        flatMap_cons, Block.imported, Block.lines, takeWhile_header_append,
        append_assoc]
      rfl
    · rw [if_neg header, ParseState.follow, if_neg header, inductionHypothesis,
        takeWhile_cons_of_pos (by simp only [header, Bool.not_false])]
      cases current with
      | none => rfl
      | some host => rfl

/-- The import reads each block with all lines up to the next `Host` line. -/
theorem parse_eq_blocks (home : Option (List Char)) (text : List Char) :
    parse home text =
      (hostBlocks (directives text)).filterMap fun block => (block.imported home).kept := by
  rw [parse, foldl_read, finish_foldl_follow]
  exact (filterMap_eq_flatMap_toList _ _).symm

/-! ### One line of a block -/

/-- What a line says when it is about a keyword. -/
def Directive.reading {β : Type} (keyword : String) (read : List Char → β) (given : Directive) :
    Option β :=
  if given.keyword = keyword.toList then some (read given.value) else none

variable {β : Type}

variable (keyword : String)

theorem filterMap_reading (read : List Char → β) (block : List Directive) :
    block.filterMap (Directive.reading keyword read) = (values keyword block).map read := by
  rw [values, map_filterMap]
  refine congrArg (List.filterMap · block) (funext fun given => ?_)
  rw [Directive.reading]
  split_ifs <;> rfl

theorem Directive.reading_self (read : List Char → β) (value : List Char) :
    Directive.reading keyword read ⟨keyword.toList, value⟩ = some (read value) :=
  if_pos rfl

theorem Directive.reading_other {keyword other : String} (differs : other ≠ keyword)
    (read : List Char → β) (value : List Char) :
    Directive.reading keyword read ⟨other.toList, value⟩ = none :=
  if_neg fun same => differs (String.toList_inj.mp same)

def bare (value : List Char) : List Char := trimMatches '"' value

theorem SshConfigHost.take_eq (home : Option (List Char)) (host : SshConfigHost)
    (given : Directive) :
    host.take home given =
      { hostAlias := host.hostAlias
        hostname := (given.reading "hostname" fun value => some (bare value)).getD host.hostname
        port := (given.reading "port" fun value => parseUnsigned (2 ^ 16) (bare value)).getD
          host.port
        user := (given.reading "user" fun value => some (bare value)).getD host.user
        identityFiles := host.identityFiles ++
          (given.reading "identityfile" fun value => expandTilde home (bare value)).toList
        proxyJump := ((given.reading "proxyjump" fun value => firstHop (bare value)).bind
          fun hop => hop.map some).getD host.proxyJump
        proxyCommand := (given.reading "proxycommand" fun value => some (bare value)).getD
          host.proxyCommand
        forwardAgent := (given.reading "forwardagent" fun value => isYes (bare value)).getD
          host.forwardAgent
        forwardX11 := host.forwardX11 ||
          ((given.reading "forwardx11" fun value => isYes (bare value)).or
            (given.reading "forwardx11trusted" fun value => isYes (bare value))).getD false
        addressFamily := (given.reading "addressfamily" fun value => readFamily (bare value)).getD
          host.addressFamily } := by
  obtain ⟨keyword, value⟩ := given
  simp only [take, set]
  split_ifs with h1 h2 h3 h4 h5 h6 h7 h8 h9
  · subst h1
    simp (disch := decide) only [Directive.reading_self, Directive.reading_other, bare,
      Option.getD_some, Option.getD_none, Option.bind_none, Option.or_none, Option.toList_none,
      append_nil, Bool.or_false]
  · subst h2
    simp (disch := decide) only [Directive.reading_self, Directive.reading_other, bare,
      Option.getD_some, Option.getD_none, Option.bind_none, Option.or_none, Option.toList_none,
      append_nil, Bool.or_false]
  · subst h3
    simp (disch := decide) only [Directive.reading_self, Directive.reading_other, bare,
      Option.getD_some, Option.getD_none, Option.bind_none, Option.or_none, Option.toList_none,
      append_nil, Bool.or_false]
  · subst h4
    simp (disch := decide) only [Directive.reading_self, Directive.reading_other, bare,
      Option.getD_none, Option.bind_none, Option.or_none, Option.toList_some, Bool.or_false]
  · subst h5
    cases hop : firstHop (trimMatches '"' value) <;>
      simp (disch := decide) only [Directive.reading_self, Directive.reading_other, bare, hop,
        Option.map_some, Option.map_none, Option.bind_some, Option.getD_some, Option.getD_none,
        Option.or_none, Option.toList_none, append_nil, Bool.or_false]
  · subst h6
    simp (disch := decide) only [Directive.reading_self, Directive.reading_other, bare,
      Option.getD_some, Option.getD_none, Option.bind_none, Option.or_none, Option.toList_none,
      append_nil, Bool.or_false]
  · subst h7
    simp (disch := decide) only [Directive.reading_self, Directive.reading_other, bare,
      Option.getD_some, Option.getD_none, Option.bind_none, Option.or_none, Option.toList_none,
      append_nil, Bool.or_false]
  · rcases h8 with rfl | rfl <;>
      simp (disch := decide) only [Directive.reading_self, Directive.reading_other, bare,
        Option.getD_some, Option.getD_none, Option.bind_none, Option.or_none, Option.none_or,
        Option.toList_none, append_nil]
  · subst h9
    simp (disch := decide) only [Directive.reading_self, Directive.reading_other, bare,
      Option.getD_some, Option.getD_none, Option.bind_none, Option.or_none, Option.toList_none,
      append_nil, Bool.or_false]
  · obtain ⟨plain, trusted⟩ := not_or.mp h8
    simp only [Directive.reading, if_neg h1, if_neg h2, if_neg h3, if_neg h4, if_neg h5, if_neg h6,
      if_neg h7, if_neg plain, if_neg trusted, if_neg h9, Option.getD_none, Option.bind_none,
      Option.or_none, Option.toList_none, append_nil, Bool.or_false]

/-! ### All lines of a block -/

variable {home : Option (List Char)}

/-- A field that each line sets or leaves is what the last line says that sets it. -/
theorem foldl_take_last (field : SshConfigHost → β) (reading : Directive → Option β)
    (step : ∀ host given, field (SshConfigHost.take home host given) =
      (reading given).getD (field host)) (block : List Directive) (host : SshConfigHost) :
    field (block.foldl (SshConfigHost.take home) host) =
      (block.filterMap reading).getLast?.getD (field host) := by
  induction block generalizing host with
  | nil => rfl
  | cons given block inductionHypothesis =>
    rw [foldl_cons, inductionHypothesis, step]
    cases said : reading given with
    | none =>
      rw [filterMap_cons_none said]
      rfl
    | some value =>
      rw [filterMap_cons_some said, getLast?_cons]
      rfl

theorem getLast?_map_some (read : List Char → β) (values : List (List Char)) :
    (values.map fun value => some (read value)).getLast?.getD none =
      values.getLast?.map read := by
  rw [getLast?_map]
  cases values.getLast? <;> rfl

theorem getLast?_map_bind (read : List Char → Option β) (values : List (List Char)) :
    (values.map read).getLast?.getD none = values.getLast?.bind read := by
  rw [getLast?_map]
  cases values.getLast? <;> rfl

variable (block : List Directive)

variable (host : SshConfigHost)

theorem identityFiles_foldl :
    (block.foldl (SshConfigHost.take home) host).identityFiles =
      host.identityFiles ++
        (values "identityfile" block).map fun value => expandTilde home (bare value) := by
  rw [← filterMap_reading]
  induction block generalizing host with
  | nil => exact (append_nil _).symm
  | cons given block inductionHypothesis =>
    rw [foldl_cons, inductionHypothesis, SshConfigHost.take_eq, append_assoc,
      filterMap_cons]
    cases given.reading "identityfile" fun value => expandTilde home (bare value) <;> rfl

theorem forwardX11_foldl :
    (block.foldl (SshConfigHost.take home) host).forwardX11 =
      (host.forwardX11 || (values "forwardx11" block ++ values "forwardx11trusted" block).any
        fun value => isYes (bare value)) := by
  induction block generalizing host with
  | nil => exact (Bool.or_false _).symm
  | cons given block inductionHypothesis =>
    rw [foldl_cons, inductionHypothesis, SshConfigHost.take_eq, Bool.or_assoc]
    refine congrArg (host.forwardX11 || ·) ?_
    simp only [values, filterMap_cons, Directive.reading]
    by_cases plain : given.keyword = "forwardx11".toList
    · have other : ¬given.keyword = "forwardx11trusted".toList := by
        rw [plain]
        decide
      simp only [if_pos plain, if_neg other, Option.some_or, Option.getD_some, cons_append,
        any_cons]
    · by_cases trusted : given.keyword = "forwardx11trusted".toList
      · simp only [if_neg plain, if_pos trusted, Option.none_or, Option.getD_some, any_append,
          any_cons]
        exact Bool.or_left_comm _ _ _
      · simp only [if_neg plain, if_neg trusted, Option.none_or, Option.getD_none, Bool.false_or]

theorem hostAlias_foldl :
    (block.foldl (SshConfigHost.take home) host).hostAlias = host.hostAlias := by
  induction block generalizing host with
  | nil => rfl
  | cons given block inductionHypothesis =>
    rw [foldl_cons, inductionHypothesis, SshConfigHost.take_eq]

theorem hostname_foldl (fresh : host.hostname = none) :
    (block.foldl (SshConfigHost.take home) host).hostname =
      (values "hostname" block).getLast?.map bare := by
  rw [foldl_take_last SshConfigHost.hostname
      (Directive.reading "hostname" fun value => some (bare value))
      fun host given => by rw [SshConfigHost.take_eq], filterMap_reading, fresh,
    getLast?_map_some]

theorem port_foldl (fresh : host.port = none) :
    (block.foldl (SshConfigHost.take home) host).port =
      (values "port" block).getLast?.bind fun value => parseUnsigned (2 ^ 16) (bare value) := by
  rw [foldl_take_last SshConfigHost.port
      (Directive.reading "port" fun value => parseUnsigned (2 ^ 16) (bare value))
      fun host given => by rw [SshConfigHost.take_eq], filterMap_reading, fresh,
    getLast?_map_bind]

theorem user_foldl (fresh : host.user = none) :
    (block.foldl (SshConfigHost.take home) host).user = (values "user" block).getLast?.map bare := by
  rw [foldl_take_last SshConfigHost.user
      (Directive.reading "user" fun value => some (bare value))
      fun host given => by rw [SshConfigHost.take_eq], filterMap_reading, fresh,
    getLast?_map_some]

theorem proxyCommand_foldl (fresh : host.proxyCommand = none) :
    (block.foldl (SshConfigHost.take home) host).proxyCommand =
      (values "proxycommand" block).getLast?.map bare := by
  rw [foldl_take_last SshConfigHost.proxyCommand
      (Directive.reading "proxycommand" fun value => some (bare value))
      fun host given => by rw [SshConfigHost.take_eq], filterMap_reading, fresh,
    getLast?_map_some]

theorem forwardAgent_foldl :
    (block.foldl (SshConfigHost.take home) host).forwardAgent =
      ((values "forwardagent" block).getLast?.map fun value => isYes (bare value)).getD
        host.forwardAgent := by
  rw [foldl_take_last SshConfigHost.forwardAgent
      (Directive.reading "forwardagent" fun value => isYes (bare value))
      fun host given => by rw [SshConfigHost.take_eq], filterMap_reading,
    getLast?_map]

theorem addressFamily_foldl :
    (block.foldl (SshConfigHost.take home) host).addressFamily =
      ((values "addressfamily" block).getLast?.map fun value => readFamily (bare value)).getD
        host.addressFamily := by
  rw [foldl_take_last SshConfigHost.addressFamily
      (Directive.reading "addressfamily" fun value => readFamily (bare value))
      fun host given => by rw [SshConfigHost.take_eq], filterMap_reading,
    getLast?_map]

theorem filterMap_reading_bind (read : List Char → Option β) (block : List Directive) :
    (block.filterMap fun given => (given.reading keyword read).bind fun hop => hop.map some) =
      ((values keyword block).filterMap read).map some := by
  rw [values, filterMap_filterMap, map_filterMap]
  refine congrArg (List.filterMap · block) (funext fun given => ?_)
  rw [Directive.reading]
  split_ifs <;> rfl

theorem proxyJump_foldl (fresh : host.proxyJump = none) :
    (block.foldl (SshConfigHost.take home) host).proxyJump =
      ((values "proxyjump" block).filterMap fun value => firstHop (bare value)).getLast? := by
  rw [foldl_take_last SshConfigHost.proxyJump
      (fun given => (given.reading "proxyjump" fun value => firstHop (bare value)).bind fun hop =>
        hop.map some)
      fun host given => by rw [SshConfigHost.take_eq], filterMap_reading_bind,
    fresh, getLast?_map]
  cases ((values "proxyjump" block).filterMap fun value => firstHop (bare value)).getLast? <;> rfl

theorem SshConfigHost.eq_iff (first second : SshConfigHost) :
    first = second ↔ first.hostAlias = second.hostAlias ∧ first.hostname = second.hostname ∧
      first.port = second.port ∧ first.user = second.user ∧
      first.identityFiles = second.identityFiles ∧ first.proxyJump = second.proxyJump ∧
      first.proxyCommand = second.proxyCommand ∧ first.forwardAgent = second.forwardAgent ∧
      first.forwardX11 = second.forwardX11 ∧ first.addressFamily = second.addressFamily := by
  obtain ⟨_, _, _, _, _, _, _, _, _, _⟩ := first
  obtain ⟨_, _, _, _, _, _, _, _, _, _⟩ := second
  exact SshConfigHost.mk.injEq .. |>.to_iff

/-- The entry the import makes of a block: of all lines up to the next `Host` line, the last value
of each keyword. -/
theorem Block.imported_eq (block : Block) :
    block.imported home =
      { hostAlias := firstWord (bare block.patterns)
        hostname := (values "hostname" block.lines).getLast?.map bare
        port := (values "port" block.lines).getLast?.bind fun value =>
          parseUnsigned (2 ^ 16) (bare value)
        user := (values "user" block.lines).getLast?.map bare
        identityFiles := (values "identityfile" block.lines).map fun value =>
          expandTilde home (bare value)
        proxyJump := ((values "proxyjump" block.lines).filterMap fun value =>
          firstHop (bare value)).getLast?
        proxyCommand := (values "proxycommand" block.lines).getLast?.map bare
        forwardAgent := ((values "forwardagent" block.lines).getLast?.map fun value =>
          isYes (bare value)).getD false
        forwardX11 :=
          (values "forwardx11" block.lines ++ values "forwardx11trusted" block.lines).any
            fun value => isYes (bare value)
        addressFamily := ((values "addressfamily" block.lines).getLast?.map fun value =>
          readFamily (bare value)).getD .auto } :=
  (SshConfigHost.eq_iff _ _).mpr
    ⟨hostAlias_foldl _ _, hostname_foldl _ _ rfl, port_foldl _ _ rfl, user_foldl _ _ rfl,
      identityFiles_foldl _ _, proxyJump_foldl _ _ rfl, proxyCommand_foldl _ _ rfl,
      forwardAgent_foldl _ _, forwardX11_foldl _ _, addressFamily_foldl _ _⟩

/-! ### Templates -/

variable {c : Char} {text : List Char}

variable (quoted : Bool)

theorem mem_scanPattern (other : c ≠ '"')
    (read : c ∈ text.takeWhile fun letter => !isWhitespace letter) :
    c ∈ scanPattern quoted text := by
  induction text generalizing quoted with
  | nil => exact absurd read not_mem_nil
  | cons letter text inductionHypothesis =>
    by_cases blank : isWhitespace letter
    · rw [takeWhile_cons_of_neg (by rw [blank]; decide)] at read
      exact absurd read not_mem_nil
    · rw [takeWhile_cons_of_pos (by simp only [blank, Bool.not_false])] at read
      rw [scanPattern]
      split_ifs with quote ends
      · exact inductionHypothesis _
          ((mem_cons.mp read).resolve_left fun here => other (here.trans quote))
      · rw [Bool.and_eq_true] at ends
        exact absurd ends.1 blank
      · exact (mem_cons.mp read).elim (fun here => here ▸ mem_cons_self)
          fun later => mem_cons_of_mem _ (inductionHypothesis _ later)

theorem firstWord_cons_of_blank {letter : Char} (blank : isWhitespace letter) :
    firstWord (letter :: text) = firstWord text := by
  rw [firstWord, dropWhile_cons_of_pos blank, firstWord]

theorem firstWord_cons_of_not_blank {letter : Char} (word : ¬isWhitespace letter) :
    firstWord (letter :: text) = letter :: text.takeWhile fun letter => !isWhitespace letter := by
  rw [firstWord, dropWhile_cons_of_neg word,
    takeWhile_cons_of_pos (by simp only [word, Bool.not_false])]

/-- A word's start is its own first word. -/
theorem mem_firstWord_of_mem_takeWhile
    (read : c ∈ text.takeWhile fun letter => !isWhitespace letter) : c ∈ firstWord text := by
  cases text with
  | nil => exact read
  | cons letter text =>
    by_cases blank : isWhitespace letter
    · rw [takeWhile_cons_of_neg (by rw [blank]; decide)] at read
      exact absurd read not_mem_nil
    · rw [firstWord_cons_of_not_blank blank]
      rwa [takeWhile_cons_of_pos (by simp only [blank, Bool.not_false])] at read

theorem mem_scanPattern_of_mem_firstWord (other : c ≠ '"') (read : c ∈ firstWord text) :
    c ∈ scanPattern true text := by
  induction text with
  | nil => exact read
  | cons letter text inductionHypothesis =>
    by_cases blank : isWhitespace letter
    · have ordinary : letter ≠ '"' := by
        rintro rfl
        exact absurd blank (by decide)
      rw [firstWord_cons_of_blank blank] at read
      rw [scanPattern, if_neg ordinary, if_neg (by rw [Bool.not_true, Bool.and_false]; decide)]
      exact mem_cons_of_mem _ (inductionHypothesis read)
    · refine mem_scanPattern true other ?_
      rw [firstWord_cons_of_not_blank blank] at read
      rwa [takeWhile_cons_of_pos (by simp only [blank, Bool.not_false])]

theorem mem_firstPattern (other : c ≠ '"') (read : c ∈ firstWord text) :
    c ∈ firstPattern quoted text := by
  induction text generalizing quoted with
  | nil => exact read
  | cons letter text inductionHypothesis =>
    rw [firstPattern]
    by_cases blank : isWhitespace letter
    · have ordinary : letter ≠ '"' := by
        rintro rfl
        exact absurd blank (by decide)
      rw [firstWord_cons_of_blank blank] at read
      rw [if_neg ordinary]
      split_ifs
      · exact inductionHypothesis false read
      · rename_i group
        have grouped : quoted = true := by
          simpa only [blank, Bool.true_and, Bool.not_eq_true', Bool.not_eq_false] using group
        rw [grouped]
        exact mem_cons_of_mem _ (mem_scanPattern_of_mem_firstWord other read)
    · rw [firstWord_cons_of_not_blank blank] at read
      split_ifs with quote ends
      · exact inductionHypothesis _ (mem_firstWord_of_mem_takeWhile
          ((mem_cons.mp read).resolve_left fun here => other (here.trans quote)))
      · rw [Bool.and_eq_true] at ends
        exact absurd ends.1 blank
      · exact (mem_cons.mp read).elim (fun here => here ▸ mem_cons_self)
          fun later => mem_cons_of_mem _ (mem_scanPattern quoted other later)

theorem mem_firstWord_append (more : List Char) (read : c ∈ firstWord text) :
    c ∈ firstWord (text ++ more) := by
  induction text with
  | nil => exact absurd read not_mem_nil
  | cons letter text inductionHypothesis =>
    rw [cons_append]
    by_cases blank : isWhitespace letter
    · rw [firstWord_cons_of_blank blank] at read ⊢
      exact inductionHypothesis read
    · rw [firstWord_cons_of_not_blank blank] at read ⊢
      refine cons_subset_cons letter (fun other found => ?_) read
      rw [takeWhile_append]
      split_ifs
      · exact mem_append_left _ ((List.takeWhile_prefix _).subset found)
      · exact found

variable {patterns : List Char}

theorem mem_firstPattern_of_mem_dropWhile (other : c ≠ '"')
    (read : c ∈ firstWord (patterns.dropWhile (· = '"'))) :
    c ∈ firstPattern quoted patterns := by
  induction patterns generalizing quoted with
  | nil => exact absurd read not_mem_nil
  | cons letter patterns inductionHypothesis =>
    rw [dropWhile_cons] at read
    by_cases quote : letter = '"'
    · rw [if_pos (decide_eq_true quote)] at read
      rw [firstPattern, if_pos quote]
      exact inductionHypothesis _ read
    · rw [if_neg (by rw [decide_eq_true_eq]; exact quote)] at read
      exact mem_firstPattern quoted other read

/-- A letter of the alias the import reads is one of the first pattern. -/
theorem mem_firstPattern_of_mem_bare (other : c ≠ '"') (read : c ∈ firstWord (bare patterns)) :
    c ∈ firstPattern false patterns := by
  refine mem_firstPattern_of_mem_dropWhile false other ?_
  obtain ⟨rest, whole⟩ :=
    rdropWhile_prefix (fun letter => decide (letter = '"')) (l := patterns.dropWhile (· = '"'))
  rw [← whole]
  exact mem_firstWord_append rest read

/-- What the import skips as a template is one. -/
theorem isWildcard_firstPattern (wildcard : isWildcard (firstWord (bare patterns))) :
    isWildcard (firstPattern false patterns) := by
  rw [isWildcard, Bool.or_eq_true, contains_iff_mem, contains_iff_mem] at wildcard ⊢
  exact wildcard.imp (mem_firstPattern_of_mem_bare (by decide))
    (mem_firstPattern_of_mem_bare (by decide))

/-! ### When the import is what the file says -/

/-- The readings of a block in which the last value up to the next `Host` line is the first one
of the block itself, for a keyword with one value, and nothing is added to the others. -/
structure Block.Settled (home : Option (List Char)) (block : Block) : Prop where
  hostAlias : firstWord (bare block.patterns) = firstPattern false block.patterns
  hostname : (values "hostname" block.lines).getLast?.map bare =
    (values "hostname" block.own).head?.map unquote
  port : ((values "port" block.lines).getLast?.bind fun value =>
      parseUnsigned (2 ^ 16) (bare value)) =
    (values "port" block.own).head?.bind fun value => parseUnsigned (2 ^ 16) (unquote value)
  user : (values "user" block.lines).getLast?.map bare =
    (values "user" block.own).head?.map unquote
  identityFiles : ((values "identityfile" block.lines).map fun value =>
      expandTilde home (bare value)) =
    (values "identityfile" block.own).map fun value => expandTilde home (unquote value)
  proxyJump : ((values "proxyjump" block.lines).filterMap fun value =>
      firstHop (bare value)).getLast? =
    (values "proxyjump" block.own).head?.bind fun value => firstHop (unquote value)
  proxyCommand : (values "proxycommand" block.lines).getLast?.map bare =
    (values "proxycommand" block.own).head?
  forwardAgent : (((values "forwardagent" block.lines).getLast?.map fun value =>
      isYes (bare value)).getD false) =
    ((values "forwardagent" block.own).getLast?.map fun value => isYes (unquote value)).getD false
  forwardX11 : ((values "forwardx11" block.lines ++ values "forwardx11trusted" block.lines).any
      fun value => isYes (bare value)) =
    (values "forwardx11" block.own ++ values "forwardx11trusted" block.own).any
      fun value => isYes (unquote value)
  addressFamily : (((values "addressfamily" block.lines).getLast?.map fun value =>
      readFamily (bare value)).getD .auto) =
    ((values "addressfamily" block.own).getLast?.map fun value =>
      readFamily (unquote value)).getD .auto

/-- A template is seen to be one, and the readings of another block are settled. -/
def Block.ReadRightly (home : Option (List Char)) (block : Block) : Prop :=
  if isWildcard (firstPattern false block.patterns) then
    isWildcard (firstWord (bare block.patterns)) = true
  else block.Settled home

theorem Block.kept_imported (block : Block) :
    (block.imported home).kept =
      if isWildcard (firstWord (bare block.patterns)) then none else some (block.imported home) := by
  rw [SshConfigHost.kept, imported, hostAlias_foldl]
  rfl

theorem Block.kept_imported_eq_means_iff (block : Block) :
    (block.imported home).kept = block.means home ↔ block.ReadRightly home := by
  rw [kept_imported, means, ReadRightly]
  by_cases template : isWildcard (firstPattern false block.patterns)
  · rw [if_pos template, if_pos template]
    refine ⟨fun same => ?_, fun seen => if_pos seen⟩
    by_contra unseen
    rw [if_neg unseen] at same
    cases same
  · have concrete : ¬isWildcard (firstWord (bare block.patterns)) := fun wildcard =>
      template (isWildcard_firstPattern wildcard)
    rw [if_neg template, if_neg template, if_neg concrete, Option.some_inj, imported_eq,
      SshConfigHost.eq_iff]
    constructor
    · rintro ⟨h1, h2, h3, h4, h5, h6, h7, h8, h9, h10⟩
      exact ⟨h1, h2, h3, h4, h5, h6, h7, h8, h9, h10⟩
    · rintro ⟨h1, h2, h3, h4, h5, h6, h7, h8, h9, h10⟩
      exact ⟨h1, h2, h3, h4, h5, h6, h7, h8, h9, h10⟩

/-- When the first reading keeps what the second keeps, the same list means the same at each
place. -/
theorem filterMap_eq_filterMap_iff {α : Type} {first second : α → Option β} {items : List α}
    (fewer : ∀ item, first item = none → second item = none) :
    items.filterMap first = items.filterMap second ↔
      ∀ item ∈ items, first item = second item := by
  refine ⟨fun same => ?_, fun each => filterMap_congr each⟩
  have shorter (items : List α) :
      (items.filterMap second).length ≤ (items.filterMap first).length := by
    induction items with
    | nil => exact Nat.le_refl _
    | cons item items inductionHypothesis =>
      cases kept : first item with
      | none =>
        rw [filterMap_cons_none kept, filterMap_cons_none (fewer item kept)]
        exact inductionHypothesis
      | some value =>
        rw [filterMap_cons_some kept, length_cons]
        cases other : second item with
        | none =>
          rw [filterMap_cons_none other]
          exact Nat.le_succ_of_le inductionHypothesis
        | some value' =>
          rw [filterMap_cons_some other, length_cons]
          exact Nat.succ_le_succ inductionHypothesis
  induction items with
  | nil => exact forall_mem_nil _
  | cons item items inductionHypothesis =>
    cases kept : first item with
    | none =>
      have skipped := fewer item kept
      rw [filterMap_cons_none kept, filterMap_cons_none skipped] at same
      exact forall_mem_cons.mpr ⟨kept.trans skipped.symm, inductionHypothesis same⟩
    | some value =>
      rw [filterMap_cons_some kept] at same
      cases other : second item with
      | none =>
        rw [filterMap_cons_none other] at same
        have longer := shorter items
        rw [← same, length_cons] at longer
        omega
      | some value' =>
        rw [filterMap_cons_some other] at same
        obtain ⟨here, later⟩ := cons_eq_cons.mp same
        exact forall_mem_cons.mpr
          ⟨kept.trans ((congrArg some here).trans other.symm), inductionHypothesis later⟩

/-- What is imported is what the file says exactly when each block is read rightly. -/
theorem parse_eq_intended_iff (home : Option (List Char)) (text : List Char) :
    parse home text = intended home text ↔
      ∀ block ∈ hostBlocks (directives text), block.ReadRightly home := by
  rw [parse_eq_blocks, intended, filterMap_eq_filterMap_iff]
  · exact forall₂_congr fun block _ => block.kept_imported_eq_means_iff
  · intro block skipped
    rw [Block.kept_imported] at skipped
    split_ifs at skipped with wildcard
    exact if_pos (isWildcard_firstPattern wildcard)

/-- A user name of a `Match` block reaches the host in front of it. -/
theorem match_user_imported :
    ¬∀ (home : Option (List Char)) (text : List Char), parse home text = intended home text := by
  intro always
  exact absurd (always none "Host web\n  User app\nMatch host db\n  User root\n".toList)
    (by decide)

end Oryxis.SshConfig

/-
This file is what the rows of an imported table do to the vault, and when an unchanged export
does nothing.

A row that names a host of the vault by its id is laid over that host. The cells an export writes
are the fields of the host again once they are trimmed, whatever stands in them; folders,
identities and keys go by their names, though. An identity or a key keeps its host also where
another one has its label, since the host's own is compared first. A folder has nothing like it:
where two folders have one path the row is refused. So an export does nothing exactly when the
names in it lead back: labels without white space around them, and a folder that its path finds.
-/

import Oryxis.Importers.Csv
import Oryxis.Library.Outcome
import Mathlib.Data.List.Perm.Lattice

namespace Oryxis.Csv

open Library Ssh List

variable {Uuid : Type} [DecidableEq Uuid]

/-! ### The vault -/

structure Group (Uuid : Type) where
  id : Uuid
  label : Text
  parentId : Option Uuid
  /-- Its hosts come from a cloud query. -/
  dynamic : Bool
  deriving DecidableEq, Repr

/-- An identity or a key. -/
structure Labelled (Uuid : Type) where
  id : Uuid
  label : Text

structure Known (Uuid : Type) where
  connections : List (Connection Uuid)
  groups : List (Group Uuid)
  identities : List (Labelled Uuid)
  keys : List (Labelled Uuid)

/-- The folders above and including one, the nearest first, where none is passed twice. -/
def ancestry (groups : List (Group Uuid)) : Nat → List Uuid → Option Uuid → List (Group Uuid)
  | 0, _, _ => []
  | _ + 1, _, none => []
  | fuel + 1, seen, some id =>
    if id ∈ seen then []
    else
      match groups.find? fun group => group.id = id with
      | none => []
      | some group => group :: ancestry groups fuel (id :: seen) group.parentId

/-- The labels from the root down. -/
def pathOf (groups : List (Group Uuid)) (id : Uuid) : Text :=
  List.intercalate " / ".toList
    ((ancestry groups groups.length [] (some id)).map Group.label).reverse

/-! ### Plans -/

structure Refusal where
  name : Text
  reason : String
  value : Option Text

def SheetRow.refusal (row : SheetRow) (reason : String) (value : Option Text) : Refusal :=
  ⟨row.name, reason, value⟩

inductive HostOp where
  | add
  | update (changes : List String)
  | remove

inductive FolderPlan (Uuid : Type) where
  | openFolder
  | keep
  | root
  | existing (id : Uuid)
  | create (path : Text)

structure DirectHost (Uuid : Type) where
  conn : Connection Uuid
  password : Option Text
  op : HostOp
  folder : FolderPlan Uuid

/-- The 8-4-4-4-12 shape of an id. -/
def looksLikeUuid (raw : Text) : Bool :=
  let groups := raw.splitOn '-'
  groups.map List.length = [8, 4, 4, 4, 12] && groups.all fun group => group.all Char.isAlphanum

/-- A user name and a port in a host are moved to where they belong, unless they are there. -/
def splitHostField (conn : Connection Uuid) : Connection Uuid :=
  match SshTarget.fromHostField conn.hostname with
  | none => conn
  | some target =>
    if target.host = conn.hostname && target.username.isNone && target.port.isNone then conn
    else
      { conn with
        hostname := target.host
        username :=
          match target.username with
          | some user => if conn.username.all isBlank then some user else conn.username
          | none => conn.username
        port :=
          match target.port with
          | some port => if some conn.port = conn.protocol.defaultPort then port else conn.port
          | none => conn.port }

def markCustomizedSince (before conn : Connection Uuid) : Connection Uuid :=
  if !conn.hasCloudRef then conn
  else
    let changed :=
      [("label", decide (conn.label ≠ before.label)),
        ("hostname", decide (conn.hostname ≠ before.hostname)),
        ("username", decide (conn.username ≠ before.username))]
    let added := (changed.filter fun field =>
      field.2 && !conn.customizedFields.contains field.1).map Prod.fst
    { conn with customizedFields := conn.customizedFields ++ added }

/-- The protocols that a host can be added with. -/
def importableProtocol (token : Text) : Option ConnectionProtocol :=
  let token := token.map Char.toLower
  if token ∈ ["ssh", "sftp", "scp"].map String.toList then some .ssh
  else if token = "telnet".toList then some .telnet
  else none

def readProtocol (row : SheetRow) (token : Text) : Except Refusal ConnectionProtocol :=
  match importableProtocol token with
  | some protocol => .ok protocol
  | none => .error (row.refusal "import_refused_protocol" (some token))

def parsePort (row : SheetRow) (raw : Text) : Except Refusal Nat :=
  match (parseUnsigned (2 ^ 16) raw).filter fun port => 0 < port with
  | some port => .ok port
  | none => .error (row.refusal "import_refused_port" (some raw))

def splitTags (cell : Text) : List Text :=
  ((cell.splitOnP fun c => c = ',' || c = ';').map trimmed).filter fun tag => !tag.isEmpty

def nonEmpty (cell : Text) : Option Text := if cell.isEmpty then none else some cell

/-- The one identity or key of a label. -/
def named (missing ambiguous : String) (row : SheetRow) (name : Text)
    (items : List (Labelled Uuid)) : Except Refusal Uuid :=
  match items.filter fun item => item.label = name with
  | [one] => .ok one.id
  | [] => .error (row.refusal missing (some name))
  | _ => .error (row.refusal ambiguous (some name))

def identityNamed (row : SheetRow) (name : Text) (identities : List (Labelled Uuid)) :
    Except Refusal Uuid :=
  named "import_refused_identity_missing" "import_refused_identity_ambiguous" row name identities

def keyNamed (row : SheetRow) (name : Text) (keys : List (Labelled Uuid)) : Except Refusal Uuid :=
  named "import_refused_key_missing" "import_refused_key_ambiguous" row name keys

/-! ### Folders -/

/-- The segments of a path that are not blank, in the form `A / B`. -/
def normalized (raw : Text) : Text :=
  List.intercalate " / ".toList
    (((raw.splitOn '/').map trimmed).filter fun segment => !segment.isEmpty)

def manual (groups : List (Group Uuid)) : List (Group Uuid) :=
  groups.filter fun group => !group.dynamic

def withPath (groups : List (Group Uuid)) (path : Text) : List (Group Uuid) :=
  (manual groups).filter fun group => pathOf groups group.id = path

def withLabel (groups : List (Group Uuid)) (label : Text) : List (Group Uuid) :=
  (manual groups).filter fun group => group.label = label

/-- Whether a path leads to a folder whose hosts come from a query, or below one. -/
def intoDynamic (groups : List (Group Uuid)) (path : Text) : Bool :=
  (groups.filter Group.dynamic).any fun group =>
    path = pathOf groups group.id || (pathOf groups group.id ++ " / ".toList).isPrefixOf path

/-- Where the folder cell sends a row; a blank one sends it to what is given. -/
def folderPlan (row : SheetRow) (cell : Text) (groups : List (Group Uuid))
    (empty : FolderPlan Uuid) : Except Refusal (FolderPlan Uuid) :=
  let raw := trimmed cell
  let path := normalized raw
  if path.isEmpty then .ok empty
  else
    match withPath groups raw with
    | [one] => .ok (.existing one.id)
    | _ :: _ :: _ => .error (row.refusal "import_refused_folder_ambiguous" (some raw))
    | [] =>
      match withPath groups path with
      | [one] => .ok (.existing one.id)
      | _ :: _ :: _ => .error (row.refusal "import_refused_folder_ambiguous" (some raw))
      | [] =>
        if intoDynamic groups path then
          .error (row.refusal "import_refused_folder_dynamic" (some raw))
        else if !containsText " / ".toList path then
          match withLabel groups path with
          | [one] => .ok (.existing one.id)
          | _ :: _ :: _ => .error (row.refusal "import_refused_folder_ambiguous" (some raw))
          | [] => .ok (.create path)
        else .ok (.create path)

/-! ### Rows -/

/-- The one host that a removal names by its label, told apart by the address if need be. -/
def hostByLabel (row : SheetRow) (connections : List (Connection Uuid)) :
    Except Refusal (Connection Uuid) :=
  let label := row.text .label
  let hostname := row.text .hostname
  if label.isEmpty then .error (row.refusal "import_refused_names_nothing" none)
  else
    let hits := connections.filter fun conn => conn.label = label
    let hits :=
      if 1 < hits.length && !hostname.isEmpty then hits.filter fun conn => conn.hostname = hostname
      else hits
    match hits with
    | [one] => .ok one
    | [] => .error (row.refusal "import_refused_no_such_label" none)
    | _ => .error (row.refusal "import_refused_label_ambiguous" none)

/-- A fresh host. -/
def Connection.new (id : Uuid) (label hostname : Text) : Connection Uuid where
  id := id
  label := label
  hostname := hostname
  port := 22
  protocol := .ssh
  username := none
  authMethod := .auto
  keyId := none
  identityId := none
  groupId := none
  tags := []
  notes := none
  hasCloudRef := false
  customizedFields := []

/-- What a cell names, if it is there and not empty. -/
def namedCell (row : SheetRow) (column : Column) (resolve : Text → Except Refusal Uuid) :
    Except Refusal (Option Uuid) :=
  match (row.cell column).bind nonEmpty with
  | none => .ok none
  | some name => (resolve name).map some

def planAdd (fresh : Uuid) (row : SheetRow) (password : Option Text) (known : Known Uuid) :
    Except Refusal (DirectHost Uuid) := do
  let label := row.text .label
  let hostname := row.text .hostname
  if label.isEmpty && hostname.isEmpty then
    throw (row.refusal "import_refused_no_address" none)
  let protocol ← if (row.text .protocol).isEmpty then pure .ssh
    else readProtocol row (row.text .protocol)
  let port ← if (row.text .port).isEmpty then pure (protocol.defaultPort.getD 22)
    else parsePort row (row.text .port)
  let identityId ← namedCell row .identity fun name => identityNamed row name known.identities
  let keyId ← namedCell row .key fun name => keyNamed row name known.keys
  let conn := splitHostField
    { Connection.new fresh (if label.isEmpty then hostname else label)
        (if hostname.isEmpty then label else hostname) with
      protocol := protocol
      port := port
      username := nonEmpty (row.text .username)
      tags := splitTags (row.text .tags)
      notes := nonEmpty (row.text .notes)
      identityId := identityId
      keyId := keyId
      authMethod := if password.isSome && keyId.isNone then .password else .auto }
  let folder ← folderPlan row (row.text .group) known.groups .openFolder
  return ⟨conn, password, .add, folder⟩

/-! ### Updates -/

section Update

variable (row : SheetRow) (existing : Connection Uuid)

/-- The cell of a column that has one that is not empty. -/
def SheetRow.filled (column : Column) : Option Text := (row.cell column).bind nonEmpty

/-- A cell that is the field once that is trimmed is the field as it is. -/
def laidLabel : Text :=
  match row.filled .label with
  | some cell => if cell = trimmed existing.label then existing.label else cell
  | none => existing.label

def laidUsername : Option Text :=
  match row.cell .username with
  | some cell => nonEmpty cell
  | none => existing.username

def laidProtocol : Except Refusal ConnectionProtocol :=
  match row.filled .protocol with
  | some token =>
    if eqIgnoreAsciiCase token (protocolToken existing.protocol) then .ok existing.protocol
    else readProtocol row token
  | none => .ok existing.protocol

def laidPort : Except Refusal Nat :=
  match row.filled .port with
  | some cell =>
    if cell = Nat.toDigits 10 existing.port then .ok existing.port else parsePort row cell
  | none => .ok existing.port

/-- The address, and what it has of a user name and a port, laid over the rest of a host. -/
def layHostname (conn : Connection Uuid) : Connection Uuid :=
  match row.filled .hostname with
  | some cell =>
    if cell = existing.hostname then conn else splitHostField { conn with hostname := cell }
  | none => conn

def laidTags : List Text :=
  match row.cell .tags with
  | some cell => splitTags cell
  | none => existing.tags

def laidNotes : Option Text :=
  match row.cell .notes with
  | some cell => if cell = trimmed (existing.notes.getD []) then existing.notes else nonEmpty cell
  | none => existing.notes

/-- An identity or a key by its label, where the one the host has comes first. -/
def laidReference (column : Column) (current : Option Uuid) (items : List (Labelled Uuid))
    (resolve : Text → Except Refusal Uuid) : Except Refusal (Option Uuid) :=
  match row.cell column with
  | none => .ok current
  | some name =>
    if name.isEmpty then .ok none
    else if (current.bind fun id => items.find? fun item => item.id = id).any fun item =>
        item.label = name then .ok current
    else (resolve name).map some

def laidFolder (groups : List (Group Uuid)) : Except Refusal (FolderPlan Uuid) :=
  match row.cell .group with
  | none => .ok .keep
  | some cell => folderPlan row cell groups .root

def folderDiffers (folder : FolderPlan Uuid) : Bool :=
  match folder with
  | .openFolder | .keep => false
  | .root => existing.groupId.isSome
  | .existing id => existing.groupId ≠ some id
  | .create _ => true

/-- The columns that an update would change. -/
def changes (conn : Connection Uuid) (folder : FolderPlan Uuid) (password : Option Text) :
    List String :=
  ([("label", decide (conn.label ≠ existing.label)),
    ("hostname", decide (conn.hostname ≠ existing.hostname)),
    ("port", decide (conn.port ≠ existing.port)),
    ("username", decide (conn.username ≠ existing.username)),
    ("protocol", decide (conn.protocol ≠ existing.protocol)),
    ("group", folderDiffers existing folder),
    ("identity", decide (conn.identityId ≠ existing.identityId)),
    ("key", decide (conn.keyId ≠ existing.keyId)),
    ("tags", decide (conn.tags ≠ existing.tags)),
    ("notes", decide (conn.notes ≠ existing.notes)),
    ("password", password.isSome)].filter Prod.snd).map Prod.fst

def planUpdate (password : Option Text) (known : Known Uuid) :
    Except Refusal (DirectHost Uuid) := do
  let protocol ← laidProtocol row existing
  let port ← laidPort row existing
  let addressed := layHostname row existing
    { existing with
      label := laidLabel row existing
      username := laidUsername row existing
      protocol := protocol
      port := port }
  let identityId ← laidReference row .identity existing.identityId known.identities
    fun name => identityNamed row name known.identities
  let keyId ← laidReference row .key existing.keyId known.keys
    fun name => keyNamed row name known.keys
  let folder ← laidFolder row known.groups
  let conn := markCustomizedSince existing
    { addressed with
      tags := laidTags row existing
      notes := laidNotes row existing
      identityId := identityId
      keyId := keyId }
  return ⟨conn, password, .update (changes existing conn folder password), folder⟩

end Update

/-! ### A whole table -/

section Plan

variable (ids : UuidText Uuid) (known : Known Uuid)

/-- Whether a row removes: other actions than the known ones are refused. -/
def removes (row : SheetRow) : Except Refusal Bool :=
  let action := (row.text .action).map Char.toLower
  if action ∈ ["", "add", "update", "upsert"].map String.toList then .ok false
  else if action ∈ ["remove", "delete"].map String.toList then .ok true
  else .error (row.refusal "import_refused_action" (some (row.text .action)))

/-- The id a row names. What only looks like one is refused. -/
def rowId (row : SheetRow) : Except Refusal (Option Uuid) :=
  let raw := row.text .id
  if raw.isEmpty then .ok none
  else
    match ids.parseStr raw with
    | some id => .ok (some id)
    | none =>
      if looksLikeUuid raw then .error (row.refusal "import_refused_bad_id" (some raw))
      else .ok none

def notTwice (row : SheetRow) (claimed : List Uuid) (conn : Connection Uuid) :
    Except Refusal Unit :=
  if conn.id ∈ claimed then .error (row.refusal "import_refused_twice" none) else .ok ()

/-- What one row does, and the hosts that are claimed then. -/
def planRow (fresh : Uuid) (claimed : List Uuid) (host : SheetHost) :
    Except Refusal (DirectHost Uuid × List Uuid) := do
  let row := host.sheet
  let remove ← removes row
  let id ← rowId ids row
  let knownHost := id.bind fun id => known.connections.find? fun conn => conn.id = id
  if remove then
    let target ← match id, knownHost with
      | _, some conn => pure conn
      | some _, none => throw (row.refusal "import_refused_no_such_id" none)
      | none, none => hostByLabel row known.connections
    notTwice row claimed target
    return (⟨target, none, .remove, .keep⟩, target.id :: claimed)
  else
    match knownHost with
    | some existing =>
      notTwice row claimed existing
      let planned ← planUpdate row existing host.password known
      return (planned, planned.conn.id :: claimed)
    | none =>
      let planned ← planAdd fresh row host.password known
      return (planned, claimed)

/-- The rows one after the other: what they do, and which are refused. -/
def plan (fresh : Nat → Uuid) (claimed : List Uuid) :
    List SheetHost → List (DirectHost Uuid) × List Refusal
  | [] => ([], [])
  | host :: hosts =>
    match planRow ids known (fresh hosts.length) claimed host with
    | .ok (planned, claimed) =>
      let others := plan fresh claimed hosts
      (planned :: others.1, others.2)
    | .error refusal =>
      let others := plan fresh claimed hosts
      (others.1, refusal :: others.2)

end Plan

/-! ### An unchanged export -/

/-- The label of an identity or a key, if there is one. -/
def labelOf (items : List (Labelled Uuid)) (id : Option Uuid) : Text :=
  ((id.bind fun id => items.find? fun item => item.id = id).map Labelled.label).getD []

/-- What an export writes for a host. -/
def exportRow (known : Known Uuid) (conn : Connection Uuid) : ExportRow Uuid where
  conn := conn
  group := (conn.groupId.map (pathOf known.groups)).getD []
  identity := labelOf known.identities conn.identityId
  key := labelOf known.keys conn.keyId

/-- The fields of a host that are written as they are. -/
structure Plain (conn : Connection Uuid) : Prop where
  label : trimmed conn.label = conn.label
  hostname : trimmed conn.hostname = conn.hostname
  username : ∀ user, conn.username = some user → user ≠ [] ∧ trimmed user = user
  tags : ∀ tag ∈ conn.tags, (tag ≠ [] ∧ trimmed tag = tag) ∧ ',' ∉ tag ∧ ';' ∉ tag

/-- A vault whose hosts refer to what is there, under ids that stand for one thing each. -/
structure Sound (known : Known Uuid) : Prop where
  connectionIds : (known.connections.map Connection.id).Nodup
  groupIds : (known.groups.map Group.id).Nodup
  identityIds : (known.identities.map Labelled.id).Nodup
  keyIds : (known.keys.map Labelled.id).Nodup
  plain : ∀ conn ∈ known.connections, Plain conn
  folders : ∀ conn ∈ known.connections, ∀ id, conn.groupId = some id →
    id ∈ known.groups.map Group.id
  identities : ∀ conn ∈ known.connections, ∀ id, conn.identityId = some id →
    id ∈ known.identities.map Labelled.id
  keys : ∀ conn ∈ known.connections, ∀ id, conn.keyId = some id → id ∈ known.keys.map Labelled.id

section Unchanged

variable (ids : UuidText Uuid) (known : Known Uuid) (host : Connection Uuid) (line : Nat)

/-- The row that comes back for a host. -/
def backRow : SheetRow := ((exportRow known host).sheet ids line).sheet

variable {cell : Text}

theorem eq_some_of_nonEmpty {text : Text} (some : nonEmpty cell = Option.some text) :
    text = cell := by
  rw [nonEmpty] at some
  split_ifs at some
  exact (Option.some.inj some).symm

theorem nonEmpty_of_ne_nil (some : cell ≠ []) : nonEmpty cell = Option.some cell := by
  rw [nonEmpty, isEmpty_eq_false_iff.mpr some, if_neg Bool.false_ne_true]

theorem laidLabel_backRow : laidLabel (backRow ids known host line) host = host.label := by
  have cell : (backRow ids known host line).filled .label = nonEmpty (trimmed host.label) := rfl
  rw [laidLabel, cell]
  cases label : nonEmpty (trimmed host.label) with
  | none => rfl
  | some text => exact if_pos (eq_some_of_nonEmpty label)

theorem laidUsername_backRow (plain : Plain host) :
    laidUsername (backRow ids known host line) host = host.username := by
  have cell : (backRow ids known host line).cell .username =
      some (trimmed (host.username.getD [])) := rfl
  rw [laidUsername, cell]
  cases username : host.username with
  | none => rfl
  | some user =>
    obtain ⟨nonempty, own⟩ := plain.username user username
    show nonEmpty (trimmed user) = _
    rw [own, nonEmpty_of_ne_nil nonempty]

theorem laidProtocol_backRow :
    laidProtocol (backRow ids known host line) host = .ok host.protocol := by
  have cell : (backRow ids known host line).filled .protocol =
      nonEmpty (trimmed (protocolToken host.protocol)) := rfl
  have token : nonEmpty (trimmed (protocolToken host.protocol)) =
      some (protocolToken host.protocol) := by
    cases host.protocol <;> decide +kernel
  rw [laidProtocol, cell, token]
  exact if_pos (decide_eq_true rfl)

theorem trimmed_toDigits (number : Nat) :
    trimmed (Nat.toDigits 10 number) = Nat.toDigits 10 number := by
  refine trimmed_of_notMem fun c member => isWhitespace_of_isLiteralLetter ?_
  rw [isLiteralLetter, isHostLetter, Char.isAlphanum, isDigit_of_mem_toDigits member, Bool.or_true]
  rfl

theorem laidPort_backRow : laidPort (backRow ids known host line) host = .ok host.port := by
  have cell : (backRow ids known host line).filled .port =
      nonEmpty (trimmed (Nat.toDigits 10 host.port)) := rfl
  rw [laidPort, cell, trimmed_toDigits, nonEmpty_of_ne_nil Nat.toDigits_ne_nil]
  exact if_pos rfl

theorem layHostname_backRow (plain : Plain host) (conn : Connection Uuid) :
    layHostname (backRow ids known host line) host conn = conn := by
  have cell : (backRow ids known host line).filled .hostname =
      nonEmpty (trimmed host.hostname) := rfl
  rw [layHostname, cell, plain.hostname]
  cases hostname : nonEmpty host.hostname with
  | none => rfl
  | some text => exact if_pos (eq_some_of_nonEmpty hostname)

theorem splitTags_intercalate {tags : List Text}
    (plain : ∀ tag ∈ tags, (tag ≠ [] ∧ trimmed tag = tag) ∧ ',' ∉ tag ∧ ';' ∉ tag) :
    splitTags (List.intercalate [','] tags) = tags := by
  have unsplit : ∀ tag ∈ tags, ∀ c ∈ tag, (decide (c = ',') || decide (c = ';')) = false := by
    intro tag member c inside
    have comma : c ≠ ',' := fun same => (plain tag member).2.1 (same ▸ inside)
    have semicolon : c ≠ ';' := fun same => (plain tag member).2.2 (same ▸ inside)
    rw [decide_eq_false comma, decide_eq_false semicolon]
    rfl
  have parts : (tags ≠ [] →
      (List.intercalate [','] tags).splitOnP (fun c => c = ',' || c = ';') = tags) := by
    intro nonempty
    induction tags with
    | nil => exact absurd rfl nonempty
    | cons tag tags inductionHypothesis =>
      obtain ⟨here, others⟩ := forall_mem_cons.mp unsplit
      cases tags with
      | nil =>
        rw [intercalate_singleton]
        exact splitOnP_eq_singleton here
      | cons next tags =>
        rw [intercalate_cons_cons, append_assoc, singleton_append,
          splitOnP_append_cons_of_forall_mem here _ rfl,
          inductionHypothesis (forall_mem_cons.mp plain).2 others (cons_ne_nil _ _)]
  by_cases nonempty : tags = []
  · subst nonempty
    rfl
  · have same : tags.map trimmed = tags :=
      (map_congr_left fun tag member => (plain tag member).1.2).trans (map_id' tags)
    rw [splitTags, parts nonempty, same]
    refine filter_eq_self.mpr fun tag member => ?_
    rw [isEmpty_eq_false_iff.mpr (plain tag member).1.1]
    rfl

theorem laidTags_backRow (plain : Plain host) :
    laidTags (backRow ids known host line) host = host.tags := by
  have cell : (backRow ids known host line).cell .tags =
      some (trimmed (List.intercalate [','] host.tags)) := rfl
  rw [laidTags, cell, trimmed_intercalate _ fun tag member => (plain.tags tag member).1]
  exact splitTags_intercalate plain.tags

theorem laidNotes_backRow : laidNotes (backRow ids known host line) host = host.notes := by
  have cell : (backRow ids known host line).cell .notes =
      some (trimmed (host.notes.getD [])) := rfl
  rw [laidNotes, cell]
  exact if_pos rfl

/-! ### Identities and keys -/

/-- A reference that an export keeps: the label it has leads back. -/
def Named (items : List (Labelled Uuid)) (current : Option Uuid) : Prop :=
  ∀ item ∈ items, current = some item.id → item.label ≠ [] ∧ trimmed item.label = item.label

theorem find?_of_nodup {Item : Type} {key : Item → Uuid} {items : List Item}
    (nodup : (items.map key).Nodup) {item : Item} (member : item ∈ items) :
    items.find? (fun other => key other = key item) = some item := by
  cases found : items.find? fun other => key other = key item with
  | none => exact absurd (decide_eq_true rfl) (find?_eq_none.mp found item member)
  | some other =>
    have hit := find?_some found
    rw [inj_on_of_nodup_map nodup (mem_of_find?_eq_some found) member
      (of_decide_eq_true hit)]

variable {items : List (Labelled Uuid)} {id : Uuid}

omit [DecidableEq Uuid] in
theorem named_label {missing ambiguous : String} {row : SheetRow} {name : Text}
    (resolved : named missing ambiguous row name items = .ok id) :
    ∃ item ∈ items, item.id = id ∧ item.label = name := by
  rw [named] at resolved
  split at resolved
  · rename_i one found
    have hit : one ∈ items.filter fun item => item.label = name := by
      rw [found]
      exact mem_singleton_self one
    obtain ⟨member, label⟩ := mem_filter.mp hit
    exact ⟨one, member, Except.ok.inj resolved, of_decide_eq_true label⟩
  · cases resolved
  · cases resolved

/-- A reference is kept exactly where the label of what it refers to leads back. -/
theorem laidReference_iff {row : SheetRow} {column : Column} (nodup : (items.map Labelled.id).Nodup)
    {current : Option Uuid} (refers : ∀ id, current = some id → id ∈ items.map Labelled.id)
    (cell : row.cell column = some (trimmed (labelOf items current))) (missing ambiguous : String) :
    laidReference row column current items (named missing ambiguous row · items) = .ok current ↔
      Named items current := by
  rw [laidReference, cell]
  cases current with
  | none => exact iff_of_true rfl fun item _ none => absurd none.symm (Option.some_ne_none _)
  | some id =>
    obtain ⟨item, member, rfl⟩ := mem_map.mp (refers id rfl)
    have found := find?_of_nodup nodup member
    have label : labelOf items (some item.id) = item.label := by
      rw [labelOf, Option.bind_some, found]
      rfl
    have only : Named items (some item.id) ↔
        item.label ≠ [] ∧ trimmed item.label = item.label := by
      refine ⟨fun named => named item member rfl, fun named other inside same => ?_⟩
      rwa [← inj_on_of_nodup_map nodup member inside (Option.some.inj same)]
    rw [only, label]
    dsimp only
    rw [Option.bind_some, found, Option.any_some]
    by_cases own : trimmed item.label = item.label
    · rw [own, decide_eq_true rfl, if_pos rfl]
      by_cases empty : item.label = []
      · rw [empty]
        exact iff_of_false (fun same => by cases same) fun named => named.1 rfl
      · rw [isEmpty_eq_false_iff.mpr empty]
        exact iff_of_true rfl ⟨empty, rfl⟩
    · refine iff_of_false (fun resolved => ?_) fun named => own named.2
      rw [decide_eq_false (Ne.symm own), if_neg Bool.false_ne_true] at resolved
      split_ifs at resolved with empty
      · cases resolved
      · obtain ⟨id, answer, same⟩ := map_eq_ok.mp resolved
        obtain ⟨other, inside, isOther, hasLabel⟩ := named_label answer
        have this := inj_on_of_nodup_map nodup inside member
          (isOther.trans (Option.some.inj same))
        exact own (this ▸ hasLabel).symm

/-! ### Folders -/

/-- A folder that its path leads back to: a manual one whose path is no other one's. A path with
white space around it is no path that is looked up, and then the folder may still be the only one
of its name. -/
structure Leads (groups : List (Group Uuid)) (id : Uuid) : Prop where
  manual : ∃ group ∈ manual groups, group.id = id
  names : normalized (trimmed (pathOf groups id)) ≠ []
  alone : trimmed (pathOf groups id) = pathOf groups id →
    ∀ other ∈ Csv.manual groups, pathOf groups other.id = pathOf groups id → other.id = id
  byLabel : trimmed (pathOf groups id) ≠ pathOf groups id →
    let raw := trimmed (pathOf groups id)
    (∀ other ∈ Csv.manual groups, pathOf groups other.id ≠ raw ∧
      pathOf groups other.id ≠ normalized raw) ∧
    intoDynamic groups (normalized raw) = false ∧
    containsText " / ".toList (normalized raw) = false ∧
    ∀ other ∈ Csv.manual groups, other.label = normalized raw ↔ other.id = id

omit [DecidableEq Uuid] in
theorem filter_eq_singleton_iff {items : List (Group Uuid)} (nodup : (items.map Group.id).Nodup)
    (kind : Group Uuid → Bool) (group : Group Uuid) :
    items.filter kind = [group] ↔
      (group ∈ items ∧ kind group) ∧ ∀ other ∈ items, kind other → other.id = group.id := by
  constructor
  · intro single
    have member : group ∈ items.filter kind := by
      rw [single]
      exact mem_singleton_self group
    refine ⟨mem_filter.mp member, fun other inside isKind => ?_⟩
    have hit : other ∈ items.filter kind := mem_filter.mpr ⟨inside, isKind⟩
    rw [single] at hit
    rw [mem_singleton.mp hit]
  · rintro ⟨hit, only⟩
    have member : group ∈ items.filter kind := mem_filter.mpr hit
    have all : ∀ other ∈ items.filter kind, other = group := fun other inside =>
      have ⟨member, isKind⟩ := mem_filter.mp inside
      inj_on_of_nodup_map nodup member hit.1 (only other member isKind)
    have distinct : (items.filter kind).Nodup := (Nodup.of_map Group.id nodup).filter _
    exact perm_singleton.mp ((perm_ext_iff_of_nodup distinct (nodup_singleton _)).mpr
      fun other => ⟨fun inside => mem_singleton.mpr (all other inside),
        fun same => mem_singleton.mp same ▸ member⟩)

theorem trimmed_normalized (raw : Text) : trimmed (normalized raw) = normalized raw := by
  refine trimmed_intercalate _ fun part member => ?_
  obtain ⟨inside, some⟩ := mem_filter.mp member
  obtain ⟨segment, _, rfl⟩ := mem_map.mp inside
  exact ⟨isEmpty_eq_false_iff.mp (Bool.not_eq_true' _ ▸ some), trimmed_trimmed segment⟩

theorem folderDiffers_existing {host : Connection Uuid} {other : Uuid}
    (folder : host.groupId = some id) :
    folderDiffers host (.existing other) = false ↔ other = id := by
  rw [folderDiffers, folder, decide_eq_false_iff_not, not_not, Option.some_inj]
  exact eq_comm

section Folder

variable {groups : List (Group Uuid)}

/-- How a folder cell comes to mean a folder. -/
inductive Found (groups : List (Group Uuid)) (raw : Text) (one : Group Uuid) : Prop where
  | asWritten (single : withPath groups raw = [one])
  | asPath (none : withPath groups raw = []) (single : withPath groups (normalized raw) = [one])
  | asLabel (none : withPath groups raw = []) (noPath : withPath groups (normalized raw) = [])
      (manual : intoDynamic groups (normalized raw) = false)
      (bare : containsText " / ".toList (normalized raw) = false)
      (single : withLabel groups (normalized raw) = [one])

variable {cell : Text} {empty : FolderPlan Uuid}

theorem folderPlan_ok {row : SheetRow} {plan : FolderPlan Uuid}
    (planned : folderPlan row cell groups empty = .ok plan) :
    normalized (trimmed cell) = [] ∧ plan = empty ∨
      normalized (trimmed cell) ≠ [] ∧ ((∃ path, plan = .create path) ∨
        ∃ one, plan = .existing one.id ∧ Found groups (trimmed cell) one) := by
  rw [folderPlan] at planned
  by_cases blank : normalized (trimmed cell) = []
  · rw [if_pos (List.isEmpty_iff.mpr blank)] at planned
    cases planned
    exact .inl ⟨blank, rfl⟩
  · rw [if_neg (List.isEmpty_iff.not.mpr blank)] at planned
    refine .inr ⟨blank, ?_⟩
    split at planned
    · rename_i one single
      cases planned
      exact .inr ⟨one, rfl, .asWritten single⟩
    · cases planned
    · rename_i none
      split at planned
      · rename_i one single
        cases planned
        exact .inr ⟨one, rfl, .asPath none single⟩
      · cases planned
      · rename_i noPath
        by_cases dynamic : intoDynamic groups (normalized (trimmed cell)) = true
        · rw [if_pos dynamic] at planned
          cases planned
        · rw [if_neg dynamic] at planned
          split at planned
          · rename_i bare
            split at planned
            · rename_i one single
              cases planned
              exact .inr ⟨one, rfl, .asLabel none noPath (Bool.eq_false_iff.mpr dynamic)
                ((Bool.not_eq_true' _).mp bare) single⟩
            · cases planned
            · cases planned
              exact .inl ⟨_, rfl⟩
          · cases planned
            exact .inl ⟨_, rfl⟩

variable {one : Group Uuid}

theorem folderPlan_of_found {row : SheetRow} (names : normalized (trimmed cell) ≠ [])
    (found : Found groups (trimmed cell) one) :
    folderPlan row cell groups empty = .ok (.existing one.id) := by
  rw [folderPlan]
  rw [isEmpty_eq_false_iff.mpr names, if_neg Bool.false_ne_true]
  cases found with
  | asWritten single => rw [single]
  | asPath none single => rw [none, single]
  | asLabel none noPath manual bare single =>
    rw [none, noPath, manual, bare, single, if_neg Bool.false_ne_true]
    rfl

omit [DecidableEq Uuid] in
theorem nodup_manual (nodup : (groups.map Group.id).Nodup) :
    ((manual groups).map Group.id).Nodup :=
  nodup.sublist (filter_sublist.map Group.id)

variable {path : Text}

theorem withPath_eq_nil_iff :
    withPath groups path = [] ↔ ∀ other ∈ manual groups, pathOf groups other.id ≠ path := by
  rw [withPath, filter_eq_nil_iff]
  simp only [decide_eq_true_eq, ne_eq]

theorem withPath_eq_singleton_iff (nodup : (groups.map Group.id).Nodup) :
    withPath groups path = [one] ↔ (one ∈ manual groups ∧ pathOf groups one.id = path) ∧
      ∀ other ∈ manual groups, pathOf groups other.id = path → other.id = one.id := by
  rw [withPath, filter_eq_singleton_iff (nodup_manual nodup)]
  simp only [decide_eq_true_eq]

omit [DecidableEq Uuid] in
theorem withLabel_eq_singleton_iff (nodup : (groups.map Group.id).Nodup) {label : Text} :
    withLabel groups label = [one] ↔ (one ∈ manual groups ∧ one.label = label) ∧
      ∀ other ∈ manual groups, other.label = label → other.id = one.id := by
  rw [withLabel, filter_eq_singleton_iff (nodup_manual nodup)]
  simp only [decide_eq_true_eq]

/-- The path of a folder finds the folder exactly where it leads back. -/
theorem found_iff_leads (nodup : (groups.map Group.id).Nodup) (id : Uuid) :
    (normalized (trimmed (pathOf groups id)) ≠ [] ∧
      ∃ one, one.id = id ∧ Found groups (trimmed (pathOf groups id)) one) ↔ Leads groups id := by
  constructor
  · rintro ⟨names, one, rfl, found⟩
    cases found with
    | asWritten single =>
      obtain ⟨⟨member, own⟩, only⟩ := (withPath_eq_singleton_iff nodup).mp single
      exact {
        manual := ⟨one, member, rfl⟩
        names := names
        alone := fun trims other inside same => only other inside (same.trans own)
        byLabel := fun odd => absurd own.symm odd }
    | asPath none single =>
      -- A path that is the normalized one has nothing to trim, so it was found as it stands.
      obtain ⟨⟨member, own⟩, _⟩ := (withPath_eq_singleton_iff nodup).mp single
      have trims : trimmed (pathOf groups one.id) = pathOf groups one.id := by
        conv_lhs => rw [own]
        rw [trimmed_normalized, ← own]
      exact absurd trims.symm (withPath_eq_nil_iff.mp none one member)
    | asLabel none noPath notDynamic bare single =>
      obtain ⟨⟨member, label⟩, only⟩ := (withLabel_eq_singleton_iff nodup).mp single
      refine {
        manual := ⟨one, member, rfl⟩
        names := names
        alone := fun trims => absurd trims.symm (withPath_eq_nil_iff.mp none one member)
        byLabel := fun _ => ⟨fun other inside => ⟨withPath_eq_nil_iff.mp none other inside,
          withPath_eq_nil_iff.mp noPath other inside⟩, notDynamic, bare, fun other inside =>
            ⟨only other inside, fun same => ?_⟩⟩ }
      rwa [inj_on_of_nodup_map (nodup_manual nodup) inside member same]
  · intro leads
    obtain ⟨one, member, rfl⟩ := leads.manual
    refine ⟨leads.names, one, rfl, ?_⟩
    by_cases trims : trimmed (pathOf groups one.id) = pathOf groups one.id
    · exact .asWritten ((withPath_eq_singleton_iff nodup).mpr
        ⟨⟨member, trims.symm⟩, fun other inside same =>
          leads.alone trims other inside (same.trans trims)⟩)
    · obtain ⟨absent, notDynamic, bare, label⟩ := leads.byLabel trims
      exact .asLabel (withPath_eq_nil_iff.mpr fun other inside => (absent other inside).1)
        (withPath_eq_nil_iff.mpr fun other inside => (absent other inside).2) notDynamic bare
        ((withLabel_eq_singleton_iff nodup).mpr ⟨⟨member, (label one member).mpr rfl⟩,
          fun other inside => (label other inside).mp⟩)

/-- A host stays in its folder exactly where the path of that leads back. -/
theorem laidFolder_iff (ids : UuidText Uuid) (known : Known Uuid)
    (nodup : (known.groups.map Group.id).Nodup) (host : Connection Uuid) (line : Nat) :
    (∃ plan, laidFolder (backRow ids known host line) known.groups = .ok plan ∧
      folderDiffers host plan = false) ↔ ∀ id, host.groupId = some id → Leads known.groups id := by
  have cell : (backRow ids known host line).cell .group =
      some (trimmed ((host.groupId.map (pathOf known.groups)).getD [])) := rfl
  rw [laidFolder, cell]
  cases folder : host.groupId with
  | none =>
    refine iff_of_true ⟨.root, rfl, ?_⟩ fun id none => by cases none
    rw [folderDiffers, folder]
    rfl
  | some id =>
    have single : (∀ other, some id = some other → Leads known.groups other) ↔
        Leads known.groups id :=
      ⟨fun all => all id rfl, fun leads other same => Option.some.inj same ▸ leads⟩
    rw [single, ← found_iff_leads nodup]
    show (∃ plan, folderPlan _ (trimmed (pathOf known.groups id)) _ _ = .ok plan ∧ _) ↔ _
    constructor
    · rintro ⟨plan, planned, same⟩
      rcases folderPlan_ok planned with ⟨_, rfl⟩ | ⟨names, ⟨path, rfl⟩ | ⟨one, rfl, found⟩⟩
      · rw [folderDiffers, folder] at same
        cases same
      · cases same
      · rw [trimmed_trimmed] at names found
        exact ⟨names, one, (folderDiffers_existing folder).mp same, found⟩
    · rintro ⟨names, one, rfl, found⟩
      rw [← trimmed_trimmed] at names found
      exact ⟨_, folderPlan_of_found names found, (folderDiffers_existing folder).mpr rfl⟩

end Folder

/-! ### Hosts -/

/-- A host whose export row leads back to it in every name. -/
structure Kept (known : Known Uuid) (host : Connection Uuid) : Prop where
  identity : Named known.identities host.identityId
  key : Named known.keys host.keyId
  folder : ∀ id, host.groupId = some id → Leads known.groups id

omit [DecidableEq Uuid] in
theorem markCustomizedSince_self {before conn : Connection Uuid} (label : conn.label = before.label)
    (hostname : conn.hostname = before.hostname) (username : conn.username = before.username) :
    markCustomizedSince before conn = conn := by
  rw [markCustomizedSince]
  split_ifs
  · rfl
  · rw [decide_eq_false (not_not.mpr label), decide_eq_false (not_not.mpr hostname),
      decide_eq_false (not_not.mpr username)]
    show { conn with customizedFields := conn.customizedFields ++ [] } = conn
    rw [append_nil]

theorem changes_eq_nil_iff (host : Connection Uuid) (identityId keyId : Option Uuid)
    (folder : FolderPlan Uuid) :
    changes host { host with identityId := identityId, keyId := keyId } folder none = [] ↔
      folderDiffers host folder = false ∧ identityId = host.identityId ∧ keyId = host.keyId := by
  rw [changes, map_eq_nil_iff, filter_eq_nil_iff]
  simp only [forall_mem_cons, ne_eq, not_true_eq_false, decide_false, true_and,
    Bool.not_eq_true, decide_eq_false_iff_not, not_not, Option.isSome_none,
    not_mem_nil, false_implies, implies_true, and_true]

/-- What is left of an update by an exported row: the names in it. -/
theorem planUpdate_backRow (plain : Plain host) :
    planUpdate (backRow ids known host line) host none known =
      (laidReference (backRow ids known host line) .identity host.identityId known.identities
        fun name => identityNamed (backRow ids known host line) name known.identities).bind
      fun identityId =>
        (laidReference (backRow ids known host line) .key host.keyId known.keys
          fun name => keyNamed (backRow ids known host line) name known.keys).bind
        fun keyId =>
          (laidFolder (backRow ids known host line) known.groups).bind fun folder =>
            .ok ⟨{ host with identityId := identityId, keyId := keyId }, none,
              .update (changes host { host with identityId := identityId, keyId := keyId } folder
                none), folder⟩ := by
  rw [planUpdate, laidProtocol_backRow, laidPort_backRow]
  simp only [laidLabel_backRow, laidUsername_backRow ids known host line plain,
    layHostname_backRow ids known host line plain, laidTags_backRow ids known host line plain,
    laidNotes_backRow, markCustomizedSince_self]
  rfl

theorem planUpdate_backRow_iff (sound : Sound known) (listed : host ∈ known.connections) :
    (∃ planned, planUpdate (backRow ids known host line) host none known = .ok planned ∧
      planned.conn.id = host.id ∧ planned.op = .update []) ↔ Kept known host := by
  have identity : laidReference (backRow ids known host line) .identity host.identityId
      known.identities (fun name => identityNamed (backRow ids known host line) name
        known.identities) = .ok host.identityId ↔ Named known.identities host.identityId :=
    laidReference_iff sound.identityIds (sound.identities host listed) rfl _ _
  have key : laidReference (backRow ids known host line) .key host.keyId known.keys
      (fun name => keyNamed (backRow ids known host line) name known.keys) = .ok host.keyId ↔
        Named known.keys host.keyId :=
    laidReference_iff sound.keyIds (sound.keys host listed) rfl _ _
  have folder := laidFolder_iff ids known sound.groupIds host line
  rw [planUpdate_backRow ids known host line (sound.plain host listed)]
  constructor
  · rintro ⟨planned, answer, _, unchanged⟩
    obtain ⟨identityId, isIdentity, answer⟩ := bind_eq_ok.mp answer
    obtain ⟨keyId, isKey, answer⟩ := bind_eq_ok.mp answer
    obtain ⟨plan, isPlan, answer⟩ := bind_eq_ok.mp answer
    cases answer
    obtain ⟨stays, rfl, rfl⟩ :=
      (changes_eq_nil_iff host identityId keyId plan).mp (HostOp.update.inj unchanged)
    exact ⟨identity.mp isIdentity, key.mp isKey, folder.mp ⟨plan, isPlan, stays⟩⟩
  · intro kept
    obtain ⟨plan, isPlan, stays⟩ := folder.mpr kept.folder
    rw [identity.mpr kept.identity, key.mpr kept.key, isPlan]
    exact ⟨_, rfl, rfl, congrArg HostOp.update ((changes_eq_nil_iff host _ _ plan).mpr
      ⟨stays, rfl, rfl⟩)⟩

theorem id_of_planUpdate (plain : Plain host) {planned : DirectHost Uuid}
    (answer : planUpdate (backRow ids known host line) host none known = .ok planned) :
    planned.conn.id = host.id := by
  rw [planUpdate_backRow ids known host line plain] at answer
  obtain ⟨identityId, _, answer⟩ := bind_eq_ok.mp answer
  obtain ⟨keyId, _, answer⟩ := bind_eq_ok.mp answer
  obtain ⟨plan, _, answer⟩ := bind_eq_ok.mp answer
  cases answer
  rfl

/-! ### All rows -/

/-- What comes back for a host. -/
def backHost : SheetHost := ⟨backRow ids known host line, none⟩

theorem planRow_backHost (sound : Sound known) (listed : host ∈ known.connections) (fresh : Uuid)
    {claimed : List Uuid} (unclaimed : host.id ∉ claimed) :
    planRow ids known fresh claimed (backHost ids known host line) =
      (planUpdate (backRow ids known host line) host none known).map fun planned =>
        (planned, planned.conn.id :: claimed) := by
  have action : removes (backRow ids known host line) = .ok false := rfl
  have text : (backRow ids known host line).text .id = ids.toText host.id :=
    trimmed_toText ids host.id
  have id : rowId ids (backRow ids known host line) = .ok (some host.id) := by
    rw [rowId, text, isEmpty_eq_false_iff.mpr (ids.toText_ne_nil host.id),
      if_neg Bool.false_ne_true, ids.parseStr_toText]
  have found : known.connections.find? (fun conn => conn.id = host.id) = some host :=
    find?_of_nodup sound.connectionIds listed
  have once : notTwice (backRow ids known host line) claimed host = .ok () := if_neg unclaimed
  rw [planRow, backHost, action, id]
  show (match (known.connections.find? fun conn => conn.id = host.id) with
    | some _ => _
    | none => _) = _
  rw [found]
  show (notTwice (backRow ids known host line) claimed host).bind _ = _
  rw [once]
  cases planUpdate (backRow ids known host line) host none known <;> rfl

end Unchanged

section Table

variable (ids : UuidText Uuid) (known : Known Uuid) (fresh : Nat → Uuid)

/-- An id with what is done to the host. -/
def DirectHost.effect (host : DirectHost Uuid) : Uuid × HostOp := (host.conn.id, host.op)

theorem plan_backHosts_iff (sound : Sound known) {hosts : List (Connection Uuid)}
    (listed : ∀ host ∈ hosts, host ∈ known.connections) (distinct : (hosts.map Connection.id).Nodup)
    {claimed : List Uuid} (unclaimed : ∀ host ∈ hosts, host.id ∉ claimed) (position : Nat) :
    let planned := plan ids known fresh claimed
      ((hosts.zipIdx position).map fun host => backHost ids known host.1 (host.2 + 2))
    (planned.2 = [] ∧
      planned.1.map DirectHost.effect = hosts.map fun host => (host.id, .update [])) ↔
      ∀ host ∈ hosts, Kept known host := by
  induction hosts generalizing claimed position with
  | nil => exact iff_of_true ⟨rfl, rfl⟩ (forall_mem_nil _)
  | cons host hosts inductionHypothesis =>
    obtain ⟨here, listedOthers⟩ := forall_mem_cons.mp listed
    obtain ⟨free, unclaimedOthers⟩ := forall_mem_cons.mp unclaimed
    obtain ⟨apart, distinctOthers⟩ := nodup_cons.mp distinct
    have kept := planUpdate_backRow_iff ids known host (position + 2) sound here
    rw [zipIdx_cons, map_cons, forall_mem_cons, ← kept]
    dsimp only
    rw [plan, planRow_backHost ids known host (position + 2) sound here _ free]
    cases answer : planUpdate (backRow ids known host (position + 2)) host none known with
    | error refusal =>
      refine iff_of_false (fun none => cons_ne_nil _ _ none.1) ?_
      rintro ⟨⟨planned, same, _⟩, _⟩
      cases same
    | ok planned =>
      have same := id_of_planUpdate ids known host (position + 2) (sound.plain host here) answer
      have free : ∀ other ∈ hosts, other.id ∉ planned.conn.id :: claimed := by
        intro other member claims
        rcases mem_cons.mp claims with isId | before
        · exact apart (same ▸ isId ▸ mem_map_of_mem member)
        · exact unclaimedOthers other member before
      have others := inductionHypothesis listedOthers distinctOthers free (position + 1)
      dsimp only at others
      rw [← others]
      constructor
      · rintro ⟨none, effects⟩
        obtain ⟨effect, effects⟩ := cons_eq_cons.mp effects
        exact ⟨⟨planned, rfl, congrArg Prod.fst effect, congrArg Prod.snd effect⟩, none, effects⟩
      · rintro ⟨⟨other, isOther, isId, op⟩, none, effects⟩
        cases isOther
        exact ⟨none, cons_eq_cons.mpr ⟨Prod.ext isId op, effects⟩⟩

/-- Reading an export of some hosts back does nothing to any of them. -/
def Harmless (letters : Letters) (hosts : List (Connection Uuid)) : Prop :=
  let read := (parse letters (render ids (hosts.map (exportRow known)))).getD []
  let planned := plan ids known fresh [] read
  read.length = hosts.length ∧ planned.2 = [] ∧
    planned.1.map DirectHost.effect = hosts.map fun host => (host.id, .update [])

/-- An unchanged export does nothing exactly when every name in it leads back. -/
theorem harmless_iff (letters : Letters) (sound : Sound known) {hosts : List (Connection Uuid)}
    (listed : ∀ host ∈ hosts, host ∈ known.connections) (distinct : hosts.Nodup) :
    Harmless ids known fresh letters hosts ↔ ∀ host ∈ hosts, Kept known host := by
  have read : (parse letters (render ids (hosts.map (exportRow known)))).getD [] =
      hosts.zipIdx.map fun host => backHost ids known host.1 (host.2 + 2) := by
    by_cases none : hosts = []
    · subst none
      rw [parse, readRows_render]
      dsimp only
      rw [map_columnOf_exportHeader]
      rfl
    · rw [parse_render ids letters (mt map_eq_nil_iff.mp none), Option.getD_some,
        zipIdx_map, map_map]
      rfl
  have ids_distinct : (hosts.map Connection.id).Nodup :=
    (nodup_map_iff_inj_on distinct).mpr fun host member other inside same =>
      inj_on_of_nodup_map sound.connectionIds (listed host member) (listed other inside) same
  have rows := plan_backHosts_iff ids known fresh sound listed ids_distinct
    (fun host _ => (not_mem_nil : host.id ∉ [])) 0
  dsimp only at rows
  rw [Harmless, read, ← rows]
  refine and_iff_right ?_
  rw [length_map, length_zipIdx]

end Table

/-! ### Samples -/

def asciiLetters : Letters where
  isAlphanumeric := Char.isAlphanum
  toLowercase c := [c.toLower]
  ascii _ _ := ⟨rfl, rfl⟩

/-- Ids that differ in the last digit. -/
def sampleText (id : Fin 3) : Text :=
  "5b4e0d52-0000-4000-8000-00000000000".toList ++ Nat.toDigits 10 id

theorem letters_sampleText (id : Fin 3) :
    (sampleText id).all (fun c => isHexDigit c || c = '-') = true := by
  revert id
  decide +kernel

def sampleIds : UuidText (Fin 3) where
  toText := sampleText
  parseStr text := (List.finRange 3).find? fun id => sampleText id = text
  parseStr_toText := by decide +kernel
  letters_toText id c member := by
    have letter := all_eq_true.mp (letters_sampleText id) c member
    rwa [Bool.or_eq_true, decide_eq_true_eq] at letter
  toText_ne_nil := by decide +kernel

/-- A host in a folder, with a note that needs quotes. -/
def sampleHost : Connection (Fin 3) :=
  { Connection.new 0 "web".toList "web.corp".toList with
    username := some "root".toList
    groupId := some 1
    identityId := some 2
    tags := ["prod".toList, "a\nb".toList]
    notes := some "say \"hi\", then; wait\n".toList }

/-- Two identities of one label, and a folder under another one. -/
def sharedLabel : Known (Fin 3) where
  connections := [sampleHost]
  groups := [⟨0, "Prod".toList, none, false⟩, ⟨1, "Web".toList, some 0, false⟩]
  identities := [⟨1, "ops".toList⟩, ⟨2, "ops".toList⟩]
  keys := []

/-- Two folders of one path. -/
def sharedPath : Known (Fin 3) where
  connections := [sampleHost]
  groups := [⟨0, "Prod".toList, none, false⟩, ⟨1, "Prod".toList, none, false⟩]
  identities := [⟨2, "ops".toList⟩]
  keys := []

theorem plain_sampleHost : Plain sampleHost where
  label := by decide +kernel
  hostname := by decide +kernel
  username := by
    intro user same
    cases same
    decide +kernel
  tags := by decide +kernel

theorem sound_sharedLabel : Sound sharedLabel where
  connectionIds := by decide
  groupIds := by decide
  identityIds := by decide
  keyIds := by decide
  plain := forall_mem_singleton.mpr plain_sampleHost
  folders := forall_mem_singleton.mpr (by decide)
  identities := forall_mem_singleton.mpr (by decide)
  keys := forall_mem_singleton.mpr (by decide)

theorem sound_sharedPath : Sound sharedPath where
  connectionIds := by decide
  groupIds := by decide
  identityIds := by decide
  keyIds := by decide
  plain := forall_mem_singleton.mpr plain_sampleHost
  folders := forall_mem_singleton.mpr (by decide)
  identities := forall_mem_singleton.mpr (by decide)
  keys := forall_mem_singleton.mpr (by decide)

theorem harmless_iff_sample :
    Harmless sampleIds sharedLabel (fun _ => 0) asciiLetters [sampleHost] ↔
      ∀ host ∈ [sampleHost], Kept sharedLabel host :=
  harmless_iff sampleIds sharedLabel (fun _ => 0) asciiLetters sound_sharedLabel
    (fun _ member => member) (nodup_singleton sampleHost)

/-- A host in a folder whose path another one has is refused. -/
theorem shared_path_refused :
    Sound sharedPath ∧
      ¬Harmless sampleIds sharedPath (fun _ => 0) asciiLetters sharedPath.connections := by
  refine ⟨sound_sharedPath, ?_⟩
  rintro ⟨_, none, _⟩
  revert none
  decide +kernel

end Oryxis.Csv

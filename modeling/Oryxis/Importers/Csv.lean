/-
This file is the table of hosts that an export writes and an import reads.

The reader maps the columns by the names in the header, guesses the delimiter from the first line
and keeps the cells of a row trimmed. What the export writes it reads as one row for each host,
with the cells of that host: the header has eleven names that mean eleven different columns and
more commas than anything else, no cell runs into the next one, and a row with an id in it is not
blank.
-/

import Oryxis.Library.Delimited
import Oryxis.Ssh.Target

namespace Oryxis.Csv

open Library List

abbrev Text := List Char

/-- The letters and digits of Unicode, of which those of ASCII are fixed here. -/
structure Letters where
  isAlphanumeric : Char → Bool
  toLowercase : Char → List Char
  ascii : ∀ c, c.toNat < 128 → isAlphanumeric c = c.isAlphanum ∧ toLowercase c = [c.toLower]

/-- Ids and the texts they are written as. -/
structure UuidText (Uuid : Type) where
  toText : Uuid → Text
  parseStr : Text → Option Uuid
  parseStr_toText : ∀ id, parseStr (toText id) = some id
  letters_toText : ∀ id, ∀ c ∈ toText id, isHexDigit c ∨ c = '-'
  toText_ne_nil : ∀ id, toText id ≠ []

/-! ### Hosts -/

inductive ConnectionProtocol where
  | ssh
  | telnet
  | raw
  | serial
  | localShell
  | remoteDesktop
  deriving DecidableEq, Repr

def ConnectionProtocol.scheme : ConnectionProtocol → Option Text
  | .ssh => some "ssh".toList
  | .telnet => some "telnet".toList
  | .raw => some "raw".toList
  | .serial => some "serial".toList
  | .remoteDesktop => some "rdp".toList
  | .localShell => none

def ConnectionProtocol.defaultPort : ConnectionProtocol → Option Nat
  | .ssh => some 22
  | .telnet => some 23
  | .remoteDesktop => some 3389
  | .raw | .serial | .localShell => none

inductive AuthMethod where
  | auto
  | password
  | key
  | agent
  | interactive
  | passwordPrompt
  | certificate
  | securityKey

structure Connection (Uuid : Type) where
  id : Uuid
  label : Text
  hostname : Text
  port : Nat
  protocol : ConnectionProtocol
  username : Option Text
  authMethod : AuthMethod
  keyId : Option Uuid
  identityId : Option Uuid
  groupId : Option Uuid
  tags : List Text
  notes : Option Text
  /-- The host came from a cloud account. -/
  hasCloudRef : Bool
  customizedFields : List String

/-! ### Columns -/

inductive Column where
  | id
  | action
  | label
  | hostname
  | port
  | username
  | password
  | group
  | identity
  | key
  | tags
  | notes
  | protocol
  | ignored
  deriving DecidableEq, Repr

def columnNames : List (List String × Column) :=
  [(["id", "uuid", "hostid"], .id),
    (["action", "op", "operation"], .action),
    (["label", "name", "alias", "title", "sessionname"], .label),
    (["hostname", "host", "address", "ip", "hostaddress"], .hostname),
    (["port", "sshport"], .port),
    (["username", "user", "login", "sshusername"], .username),
    (["password", "sshpassword"], .password),
    (["group", "folder", "groupname", "path"], .group),
    (["identity"], .identity),
    (["key"], .key),
    (["tags", "labels"], .tags),
    (["notes", "note", "comment", "description"], .notes),
    (["protocol", "type"], .protocol)]

def columnNamed (key : Text) : Column :=
  (columnNames.find? fun entry => entry.1.any fun name => name.toList = key).elim .ignored Prod.snd

def columnOf (letters : Letters) (header : Text) : Column :=
  columnNamed ((header.filter letters.isAlphanumeric).flatMap letters.toLowercase)

/-! ### Reading a table -/

/-- The cells of a row, as far as the header has columns for them. -/
structure SheetRow where
  line : Nat
  cells : List (Column × Text)

def SheetRow.cell (row : SheetRow) (column : Column) : Option Text :=
  (row.cells.find? fun entry => entry.1 = column).map Prod.snd

def SheetRow.text (row : SheetRow) (column : Column) : Text := (row.cell column).getD []

def SheetRow.name (row : SheetRow) : Text :=
  (([Column.label, Column.hostname].map row.text).find? fun text => !text.isEmpty).getD
    ("line ".toList ++ Nat.toDigits 10 row.line)

/-- A row that waits for what the vault says about it. -/
structure SheetHost where
  sheet : SheetRow
  password : Option Text

/-- Whichever of comma, semicolon and tab the first line has most of. -/
def sniffDelimiter (text : Text) : Char :=
  let first := (lines text).head?.getD []
  [';', '\t'].foldl
    (fun best delimiter => if first.count best < first.count delimiter then delimiter else best) ','

def isBlank (cell : Text) : Bool := (trimmed cell).isEmpty

def isBlankLine (row : List Text) : Bool :=
  match row with
  | [cell] => isBlank cell
  | _ => false

def readRows (text : Text) : List (List Text) :=
  (Delimited.read (sniffDelimiter text) text).filter fun row => !isBlankLine row

/-- One column of a row. The first column of a kind wins. -/
def readColumn (row : List Text) (read : List (Column × Text) × Option Text)
    (column : Column × Nat) : List (Column × Text) × Option Text :=
  if column.1 = .ignored || read.1.any fun entry => entry.1 = column.1 then read
  else
    let value := trimmed (row[column.2]?.getD [])
    if column.1 = .password then (read.1, read.2.or (if value.isEmpty then none else some value))
    else (read.1 ++ [(column.1, value)], read.2)

def readSheet (columns : List Column) (row : List Text × Nat) : SheetHost :=
  let read := columns.zipIdx.foldl (readColumn row.1) ([], none)
  ⟨⟨row.2 + 2, read.1⟩, read.2⟩

/-- Whether a header says enough about hosts. -/
def isHostHeader (columns : List Column) : Bool :=
  columns.contains .hostname || columns.contains .label ||
    columns.contains .id && columns.any fun column => column ≠ .id && column ≠ .ignored

def parse (letters : Letters) (text : Text) : Option (List SheetHost) :=
  match readRows text with
  | [] => none
  | header :: rows =>
    let columns := header.map (columnOf letters)
    if !isHostHeader columns then none
    else
      let hosts := (rows.zipIdx.filter fun row => !row.1.all isBlank).map (readSheet columns)
      if hosts.isEmpty then none else some hosts

/-! ### Writing one -/

/-- A host with its folder, identity and key by label. -/
structure ExportRow (Uuid : Type) where
  conn : Connection Uuid
  group : Text
  identity : Text
  key : Text

def exportHeader : List Text :=
  ["id", "label", "hostname", "port", "username", "protocol", "group", "identity", "key", "tags",
    "notes"].map String.toList

def protocolToken (protocol : ConnectionProtocol) : Text := protocol.scheme.getD "local".toList

def quoteField (cell : Text) : Text :=
  if cell.any fun letter =>
      letter = '"' || letter = ',' || letter = ';' || letter = '\n' || letter = '\r' then
    Delimited.quoted cell
  else cell

section Export

variable {Uuid : Type} (ids : UuidText Uuid)

def ExportRow.cells (row : ExportRow Uuid) : List Text :=
  [ids.toText row.conn.id, row.conn.label, row.conn.hostname, Nat.toDigits 10 row.conn.port,
    row.conn.username.getD [], protocolToken row.conn.protocol, row.group, row.identity, row.key,
    List.intercalate [','] row.conn.tags, row.conn.notes.getD []]

def render (rows : List (ExportRow Uuid)) : Text :=
  List.intercalate [','] exportHeader ++ ['\n'] ++
    rows.flatMap fun row => Delimited.writeRow ',' quoteField (row.cells ids)

/-! ### What was written is read -/

def exportColumns : List Column :=
  [.id, .label, .hostname, .port, .username, .protocol, .group, .identity, .key, .tags, .notes]

variable (letters : Letters)

theorem columnOf_of_ascii {header : Text} (ascii : ∀ c ∈ header, c.toNat < 128) :
    columnOf letters header = columnNamed ((header.filter Char.isAlphanum).map Char.toLower) := by
  have kept : header.filter letters.isAlphanumeric = header.filter Char.isAlphanum :=
    filter_congr fun c member => (letters.ascii c (ascii c member)).1
  have small : (header.filter Char.isAlphanum).flatMap letters.toLowercase =
      (header.filter Char.isAlphanum).map Char.toLower := by
    rw [map_eq_flatMap]
    exact flatMap_congr fun c member =>
      (letters.ascii c (ascii c (mem_of_mem_filter member))).2
  rw [columnOf, kept, small]

theorem map_columnOf_exportHeader :
    exportHeader.map (columnOf letters) = exportColumns := by
  have ascii : exportHeader.all (fun name => name.all fun c => c.toNat < 128) = true := by
    decide +kernel
  rw [map_congr_left fun name member => columnOf_of_ascii letters fun c inside =>
    of_decide_eq_true (all_eq_true.mp (all_eq_true.mp ascii name member) c inside)]
  decide +kernel

theorem stands_quoteField (cell : Text) : Delimited.Stands ',' (quoteField cell) cell := by
  rw [quoteField]
  split_ifs with special
  · exact .inl rfl
  · refine .inr ⟨rfl, fun letter member => ?_⟩
    have ordinary := any_eq_false.mp (Bool.eq_false_iff.mpr special) letter member
    simp only [Bool.or_eq_true, decide_eq_true_eq, not_or] at ordinary
    obtain ⟨⟨⟨⟨quote, comma⟩, _⟩, feed⟩, carriage⟩ := ordinary
    rw [Delimited.isSpecial, decide_eq_false quote, decide_eq_false comma, decide_eq_false feed,
      decide_eq_false carriage]
    rfl

variable (rows : List (ExportRow Uuid))

theorem render_eq :
    render ids rows =
      (exportHeader :: rows.map (ExportRow.cells ids)).flatMap
        (Delimited.writeRow ',' quoteField) := by
  have header : List.intercalate [','] exportHeader ++ ['\n'] =
      Delimited.writeRow ',' quoteField exportHeader := by decide +kernel
  rw [render, header, flatMap_cons, flatMap_map]

theorem head?_lines {line : Text} (oneLine : '\n' ∉ line) (rest : Text) :
    (lines (line ++ '\n' :: rest)).head? = some (stripCr line) := by
  have pieces : (rawLines (line ++ '\n' :: rest)).head? = some (line, true) := by
    induction line with
    | nil => rw [nil_append, rawLines, if_pos rfl]; rfl
    | cons letter line inductionHypothesis =>
      obtain ⟨other, others⟩ := not_or.mp (mem_cons.not.mp oneLine)
      have inside := inductionHypothesis others
      rw [cons_append, rawLines, if_neg (Ne.symm other)]
      cases read : rawLines (line ++ '\n' :: rest) with
      | nil => rw [read] at inside; cases inside
      | cons piece pieces =>
        rw [read] at inside
        cases inside
        rfl
  rw [lines, head?_map, pieces]
  rfl

theorem sniffDelimiter_render :
    sniffDelimiter (render ids rows) = ',' := by
  have first : (lines (render ids rows)).head? = some (List.intercalate [','] exportHeader) := by
    rw [render, append_assoc, singleton_append, head?_lines (by decide +kernel)]
    decide +kernel
  rw [sniffDelimiter, first]
  decide +kernel

theorem readRows_render :
    readRows (render ids rows) = exportHeader :: rows.map (ExportRow.cells ids) := by
  rw [readRows, sniffDelimiter_render, render_eq, Delimited.read_writeRows (by decide) (by decide)
    stands_quoteField]
  · refine filter_eq_self.mpr (forall_mem_cons.mpr ⟨by decide, fun cells member => ?_⟩)
    obtain ⟨row, _, rfl⟩ := mem_map.mp member
    rfl
  · refine forall_mem_cons.mpr ⟨by decide, fun cells member => ?_⟩
    obtain ⟨row, _, rfl⟩ := mem_map.mp member
    exact cons_ne_nil _ _

theorem trimmed_toText (id : Uuid) : trimmed (ids.toText id) = ids.toText id := by
  refine trimmed_of_notMem fun c member => Ssh.isWhitespace_of_isLiteralLetter ?_
  rcases ids.letters_toText id c member with digit | rfl
  · rw [Ssh.isLiteralLetter, Ssh.isHostLetter, Ssh.isAlphanum_of_isHexDigit digit]
    rfl
  · rfl

/-- Columns of different kinds are read cell by cell. -/
theorem foldl_readColumn {columns : List Column} (distinct : columns.Nodup)
    (known : .ignored ∉ columns) (noPassword : .password ∉ columns) {row : List Text}
    {position : Nat} (length : row.length = position + columns.length)
    {cells : List (Column × Text)} (fresh : ∀ cell ∈ cells, cell.1 ∉ columns)
    (password : Option Text) :
    (columns.zipIdx position).foldl (readColumn row) (cells, password) =
      (cells ++ columns.zip ((row.drop position).map trimmed), password) := by
  induction columns generalizing position cells with
  | nil => rw [zip_nil_left, append_nil]; rfl
  | cons column columns inductionHypothesis =>
    obtain ⟨here, others⟩ := nodup_cons.mp distinct
    obtain ⟨notIgnored, knownOthers⟩ := not_or.mp (mem_cons.not.mp known)
    obtain ⟨notPassword, noPasswords⟩ := not_or.mp (mem_cons.not.mp noPassword)
    rw [length_cons] at length
    have inside : position < row.length := by omega
    have unread : (cells.any fun entry => decide (entry.1 = column)) = false := by
      refine any_eq_false.mpr fun entry member same => ?_
      exact fresh entry member (of_decide_eq_true same ▸ mem_cons_self)
    have read : readColumn row (cells, password) (column, position) =
        (cells ++ [(column, trimmed row[position])], password) := by
      rw [readColumn, unread, decide_eq_false (Ne.symm notIgnored), if_neg (by decide),
        getElem?_eq_getElem inside, Option.getD_some]
      exact if_neg (Ne.symm notPassword)
    rw [zipIdx_cons, foldl_cons, read,
      inductionHypothesis others knownOthers noPasswords (by omega),
      drop_eq_getElem_cons inside, map_cons, zip_cons_cons, append_assoc, singleton_append]
    intro cell member
    rcases mem_append.mp member with before | same
    · exact fun later => fresh cell before (mem_cons_of_mem _ later)
    · rw [mem_singleton.mp same]
      exact here

/-- The row that an exported host is read back as. -/
def ExportRow.sheet (row : ExportRow Uuid) (line : Nat) : SheetHost :=
  ⟨⟨line, exportColumns.zip ((row.cells ids).map trimmed)⟩, none⟩

theorem readSheet_cells (row : ExportRow Uuid) (number : Nat) :
    readSheet exportColumns (row.cells ids, number) = row.sheet ids (number + 2) := by
  rw [readSheet, foldl_readColumn (by decide) (by decide) (by decide) rfl
    (forall_mem_nil _)]
  rfl

theorem not_all_isBlank (row : ExportRow Uuid) : (row.cells ids).all isBlank = false := by
  have id : isBlank (ids.toText row.conn.id) = false := by
    rw [isBlank, trimmed_toText]
    exact isEmpty_eq_false_iff.mpr (ids.toText_ne_nil _)
  rw [ExportRow.cells, all_cons, id, Bool.false_and]

/-- An export is read back as one row for each host. -/
theorem parse_render {rows : List (ExportRow Uuid)} (some : rows ≠ []) :
    parse letters (render ids rows) =
      Option.some (rows.zipIdx.map fun row => row.1.sheet ids (row.2 + 2)) := by
  have kept : ((rows.map (ExportRow.cells ids)).zipIdx.filter fun row => !row.1.all isBlank) =
      rows.zipIdx.map fun row => (row.1.cells ids, row.2) := by
    rw [zipIdx_map]
    refine filter_eq_self.mpr fun row member => ?_
    obtain ⟨source, _, rfl⟩ := mem_map.mp member
    show (!(source.1.cells ids).all isBlank) = true
    rw [not_all_isBlank]
    rfl
  have hosts : (rows.zipIdx.map fun row => (row.1.cells ids, row.2)).map (readSheet exportColumns) =
      rows.zipIdx.map fun row => row.1.sheet ids (row.2 + 2) := by
    rw [map_map]
    exact map_congr_left fun row _ => readSheet_cells ids row.1 row.2
  have nonempty : (rows.zipIdx.map fun row => row.1.sheet ids (row.2 + 2)).isEmpty = false := by
    rw [isEmpty_map, isEmpty_eq_false_iff]
    exact fun none => some (zipIdx_eq_nil_iff.mp none)
  rw [parse, readRows_render]
  dsimp only
  rw [map_columnOf_exportHeader, if_neg (by decide), kept, hosts, nonempty,
    if_neg Bool.false_ne_true]

end Export

end Oryxis.Csv

/-
This file proves what `change_master_key` does to the sealed fields.

Every statement of the change has a description: when it is carried out, and what
it then does to the database. A write of a key and value row changes one value;
the conversion of a column changes that column in every row and nothing else, as
no key names two rows. Put together these say that a change that goes through
converts every sealed field, except those whose read was refused without anyone
hearing of it, and leaves every other value as it was.
-/

import Oryxis.Vault.MasterKey

namespace Oryxis

open Library Library.Database VaultDb

/-- The tables with a sealed column have their primary keys. -/
def KeyedTables (db : Database TableName) : Prop :=
  ∀ place ∈ sealedColumns, UniqueOn place.idColumn (db.rows place.table)

/-- A field of no key and value table, or a row of one. -/
def SealedField.ownTable : SealedField → Prop
  | .column place _ => place.table ≠ .vaultMeta ∧ place.table ≠ .settings
  | _ => True

theorem table_of_sealedColumns {place : SealedColumn} (listed : place ∈ sealedColumns) :
    place.table ≠ .vaultMeta ∧ place.table ≠ .settings := by
  simp only [sealedColumns, List.mem_cons, List.not_mem_nil, or_false] at listed
  rcases listed with rfl | rfl | rfl | rfl | rfl | rfl | rfl | rfl | rfl <;> simp

theorem SealedField.ownTable_of_isSealed {field : SealedField} (isSealed : field.isSealed) :
    field.ownTable := by
  cases field with
  | column place id => exact table_of_sealedColumns isSealed
  | _ => trivial

/-- Two sealed columns of one table share its key, and neither is the key. -/
theorem sealedColumns_apart {place other : SealedColumn} (listed : place ∈ sealedColumns)
    (otherListed : other ∈ sealedColumns) :
    place.column ≠ other.idColumn ∧
      (place.table = other.table → place.idColumn = other.idColumn ∧
        (place.column = other.column → place = other)) := by
  simp only [sealedColumns, List.mem_cons, List.not_mem_nil, or_false] at listed otherListed
  rcases listed with rfl | rfl | rfl | rfl | rfl | rfl | rfl | rfl | rfl <;>
    rcases otherListed with rfl | rfl | rfl | rfl | rfl | rfl | rfl | rfl | rfl <;>
    decide

/-! ### Key and value rows -/

section Writes

variable {circumstances : Circumstances}

theorem valueOf_upsert_setting {db : Database TableName} (exist : db.tables .settings ≠ none)
    (key : String) (value : SqlValue) {field : SealedField} (own : field.ownTable) :
    valueOf (db.upsert .settings "key" (keyValue key value)) field =
      if field = .setting key then some value else valueOf db field := by
  have named : keyValue key value "key" = .text key := rfl
  cases field with
  | column place id =>
    rw [valueOf, lookup_upsert _ exist named _ _ _ fun same => absurd same own.2,
      if_neg fun both => own.2 both.1, if_neg (by simp)]
    rfl
  | setting other =>
    rw [valueOf, lookup_upsert _ exist named _ _ _ fun _ => rfl]
    by_cases same : other = key
    · rw [if_pos ⟨rfl, same⟩, if_pos (congrArg _ same)]
      rfl
    · rw [if_neg fun both => same both.2, if_neg fun equal => same (SealedField.setting.inj equal)]
      rfl
  | vaultMeta other =>
    rw [valueOf, lookup_upsert _ exist named _ _ _ (by simp), if_neg (by simp), if_neg (by simp)]
    rfl

theorem valueOf_upsert_meta {db : Database TableName} (exist : db.tables .vaultMeta ≠ none)
    (key : String) (value : SqlValue) {field : SealedField} (own : field.ownTable) :
    valueOf (db.upsert .vaultMeta "key" (keyValue key value)) field =
      if field = .vaultMeta key then some value else valueOf db field := by
  have named : keyValue key value "key" = .text key := rfl
  cases field with
  | column place id =>
    rw [valueOf, lookup_upsert _ exist named _ _ _ fun same => absurd same own.1,
      if_neg fun both => own.1 both.1, if_neg (by simp)]
    rfl
  | setting other =>
    rw [valueOf, lookup_upsert _ exist named _ _ _ (by simp), if_neg (by simp), if_neg (by simp)]
    rfl
  | vaultMeta other =>
    rw [valueOf, lookup_upsert _ exist named _ _ _ fun _ => rfl]
    by_cases same : other = key
    · rw [if_pos ⟨rfl, same⟩, if_pos (congrArg _ same)]
      rfl
    · rw [if_neg fun both => same both.2, if_neg fun equal => same (SealedField.vaultMeta.inj equal)]
      rfl

/-- Writing a key and value row. -/
theorem does_putValue (field : SealedField) {table : TableName} (key : String) (value : SqlValue)
    (isKeyValue : table = .vaultMeta ∨ table = .settings) :
    Program.Does KeyedTables (putValue circumstances field table key value)
      (fun db => circumstances.refusesWrite field = false ∧ db.tables table ≠ none)
      (fun db => db.upsert table "key" (keyValue key value)) where
  done db _ accepted := by
    refine Program.execute_attempt_of_ok (if_neg ?_)
    rw [accepted.1]
    simpa using accepted.2
  kept db keyed _ place listed := by
    have own := table_of_sealedColumns listed
    rw [Database.rows, tables_upsert_of_ne]
    · exact keyed place listed
    · rcases isKeyValue with rfl | rfl
      · exact own.1
      · exact own.2
  stopped db _ refused := by
    refine ⟨.engine, db, Program.execute_attempt_of_error (if_pos ?_)⟩
    by_contra accepted
    rw [not_or, Bool.not_eq_true] at accepted
    exact refused accepted

end Writes

/-! ### One value -/

section Conversion

variable {circumstances : Circumstances} {codec : FieldCodec} {field : SealedField} {bytes : Bytes}

/-- A value decoded and encoded again. -/
def FieldCodec.reencode (codec : FieldCodec) (field : SealedField) (bytes : Bytes) :
    Except RekeyError Bytes :=
  (codec.dec bytes).bind (codec.enc field)

/-- What becomes of the bytes of a field. -/
def FieldCodec.convert (codec : FieldCodec) (field : SealedField) (bytes : Bytes) : Bytes :=
  match codec.reencode field bytes with
  | .ok encoded => encoded
  | .error _ => bytes

/-- The bytes of a field can be converted, and the write back is not refused. -/
def Converts (circumstances : Circumstances) (codec : FieldCodec) (field : SealedField)
    (bytes : Bytes) : Prop :=
  (∃ encoded, codec.reencode field bytes = .ok encoded) ∧ circumstances.refusesWrite field = false

variable {write : Bytes → Program (Database TableName) RekeyError PUnit}

theorem convertValue_strict :
    convertValue codec false field bytes write =
      Program.ofExcept (codec.reencode field bytes) >>= write := by
  unfold convertValue FieldCodec.reencode
  cases codec.dec bytes <;> rfl

theorem does_convertValue {holds : Database TableName → Prop} {accepts : Database TableName → Prop}
    {effect : Bytes → Database TableName → Database TableName}
    (writes : ∀ encoded, Program.Does holds (write encoded) accepts (effect encoded)) :
    Program.Does holds (convertValue codec false field bytes write)
      (fun db => (∃ encoded, codec.reencode field bytes = .ok encoded) ∧ accepts db)
      (effect (codec.convert field bytes)) := by
  rw [convertValue_strict]
  unfold FieldCodec.convert
  cases codec.reencode field bytes with
  | error error =>
    exact ⟨fun db _ impossible => by simp at impossible, fun db _ impossible => by simp at impossible,
      fun db _ _ => ⟨error, db, rfl⟩⟩
  | ok encoded =>
    refine ((writes encoded).congr (fun db _ => ?_) fun _ _ _ => rfl)
    exact ⟨And.right, fun accepted => ⟨⟨encoded, rfl⟩, accepted⟩⟩

/-! ### One column -/

/-- Every value of the column is read and converted. -/
structure ColumnConverts (circumstances : Circumstances) (codec : FieldCodec)
    (place : SealedColumn) (db : Database TableName) : Prop where
  selected : circumstances.refusesSelect place = false
  exist : db.tables place.table ≠ none
  each : ∀ row ∈ db.rows place.table, row place.column ≠ .null →
    ∃ id bytes, cellOf place.idColumn place.column row = some (id, bytes) ∧
      Converts circumstances codec (.column place id) bytes

/-- A row after the conversion of a column. -/
def convertRow (codec : FieldCodec) (place : SealedColumn) : SqlRow → SqlRow :=
  convertCell place.idColumn place.column fun id => codec.convert (.column place id)

/-- The database after the conversion of a column. -/
def convertedColumn (codec : FieldCodec) (place : SealedColumn) (db : Database TableName) :
    Database TableName :=
  db.mapTable place.table (convertRow codec place)

variable {column : String}

theorem convertRow_of_ne (codec : FieldCodec) (place : SealedColumn)
    (different : column ≠ place.column) (row : SqlRow) :
    convertRow codec place row column = row column := by
  unfold convertRow convertCell
  cases cellOf place.idColumn place.column row with
  | none => rfl
  | some cell => exact SqlRow.set_of_ne _ _ different

variable {change : SqlRow → SqlRow}

theorem uniqueOn_map {rows : List SqlRow} (kept : ∀ row, change row column = row column)
    (unique : UniqueOn column rows) :
    UniqueOn column (rows.map change) := by
  unfold UniqueOn
  rw [List.pairwise_map]
  refine unique.imp fun {row other} apart => ?_
  rw [kept, kept]
  exact apart

variable {db : Database TableName}

variable {name : TableName}

theorem keyedTables_mapTable (keyed : KeyedTables db)
    (kept : ∀ place ∈ sealedColumns, place.table = name →
      ∀ row, change row place.idColumn = row place.idColumn) :
    KeyedTables (db.mapTable name change) := by
  intro place listed
  rw [rows_mapTable]
  split
  · rename_i same
    rw [← same]
    exact uniqueOn_map (kept place listed same) (keyed place listed)
  · exact keyed place listed

variable {place : SealedColumn}

theorem does_updateColumn (listed : place ∈ sealedColumns) (id : String) (encoded : Bytes) :
    Program.Does KeyedTables (updateColumn circumstances place id encoded)
      (fun _ => circumstances.refusesWrite (.column place id) = false)
      (fun db => db.mapTable place.table
        (updateCell place.idColumn place.column id encoded)) where
  done db _ accepted := by
    refine Program.execute_attempt_of_ok (if_neg ?_)
    rw [accepted]
    exact Bool.false_ne_true
  kept db keyed _ := by
    refine keyedTables_mapTable keyed fun other otherListed _ row => ?_
    unfold updateCell
    split
    · exact SqlRow.set_of_ne _ _ (sealedColumns_apart listed otherListed).1.symm
    · rfl
  stopped db _ refused :=
    ⟨.engine, db, Program.execute_attempt_of_error (if_pos (Bool.not_eq_false _ ▸ refused))⟩

theorem does_convertBlobColumn (listed : place ∈ sealedColumns) :
    Program.Does KeyedTables (convertBlobColumn circumstances codec false place)
      (ColumnConverts circumstances codec place) (convertedColumn codec place) := by
  have items : ∀ cells : List (String × Bytes), Program.Does KeyedTables
      (List.forM cells fun cell => convertValue codec false (.column place cell.1) cell.2
        (updateColumn circumstances place cell.1))
      (fun _ => ∀ cell ∈ cells, Converts circumstances codec (.column place cell.1) cell.2)
      (fun db => cells.foldl (fun db cell => db.mapTable place.table
        (updateCell place.idColumn place.column cell.1
          (codec.convert (.column place cell.1) cell.2))) db) :=
    fun cells => Program.Does.forM
      (fun cell _ => does_convertValue fun encoded => does_updateColumn listed cell.1 encoded)
      (List.pairwise_of_forall fun _ _ _ _ _ => Iff.rfl)
  have run : ∀ db, (convertBlobColumn circumstances codec false place).execute db =
      ((Program.ofExcept (readColumn circumstances place db) >>= fun cells =>
        List.forM cells fun cell => convertValue codec false (.column place cell.1) cell.2
          (updateColumn circumstances place cell.1))).execute db :=
    fun db => Program.execute_bind_of_ok _ (Program.execute_get db)
  have effect : ∀ db, KeyedTables db →
      (((db.rows place.table).filterMap (cellOf place.idColumn place.column)).foldl
        (fun db cell => db.mapTable place.table (updateCell place.idColumn place.column cell.1
          (codec.convert (.column place cell.1) cell.2))) db) = convertedColumn codec place db := by
    intro db keyed
    rw [foldl_mapTable, convertedColumn]
    refine mapTable_congr fun row member => ?_
    have rows := foldl_updateCell (sealedColumns_apart listed listed).1
      (fun id => codec.convert (.column place id)) (keyed place listed)
    rw [foldl_map_rows] at rows
    exact List.map_inj_left.mp rows row member
  refine ⟨fun db keyed accepted => ?_, fun db keyed accepted => ?_, fun db keyed refused => ?_⟩
  · have selected : readColumn circumstances place db =
        .ok ((db.rows place.table).filterMap (cellOf place.idColumn place.column)) := by
      have cells := selectColumn_eq_some_iff.mpr ⟨fun row member value => by
        obtain ⟨id, bytes, cell, _⟩ := accepted.each row member value
        rw [cell]
        rfl, rfl⟩
      rw [readColumn, if_neg (by simp [accepted.selected, accepted.exist]), cells]
    rw [run, selected, Program.execute_bind_of_ok _ (Program.execute_ofExcept _ _), ← effect db keyed]
    refine (items _).done db keyed fun cell member => ?_
    obtain ⟨row, isRow, isCell⟩ := List.mem_filterMap.mp member
    obtain ⟨id, bytes, same, converts⟩ := accepted.each row isRow (by
      rw [(cellOf_eq_some_iff.mp isCell).2]
      simp)
    rw [isCell] at same
    cases same
    exact converts
  · refine keyedTables_mapTable keyed fun other otherListed _ row => ?_
    exact convertRow_of_ne codec place (sealedColumns_apart listed otherListed).1.symm row
  · rw [run]
    cases selected : readColumn circumstances place db with
    | error error => exact ⟨error, db, rfl⟩
    | ok cells =>
      rw [Program.execute_bind_of_ok _ (Program.execute_ofExcept _ _)]
      refine (items cells).stopped db keyed fun each => refused ?_
      unfold readColumn at selected
      split at selected
      · cases selected
      · rename_i open_
        rw [not_or, Bool.not_eq_true] at open_
        split at selected
        · cases selected
        · rename_i read
          cases selected
          obtain ⟨readable, rfl⟩ := selectColumn_eq_some_iff.mp read
          refine ⟨open_.1, open_.2, fun row member value => ?_⟩
          obtain ⟨cell, isCell⟩ := Option.isSome_iff_exists.mp (readable row member value)
          exact ⟨cell.1, cell.2, isCell, each cell (List.mem_filterMap.mpr ⟨row, member, isCell⟩)⟩

/-! ### One setting, one meta row -/

variable {Key : Type} {primitives : Primitives Key}

/-- What is read of the field can be converted. -/
def ReadConverts (primitives : Primitives Key) (circumstances : Circumstances) (codec : FieldCodec)
    (field : SealedField) (db : Database TableName) : Prop :=
  ∀ bytes, readOk primitives circumstances field db = some bytes →
    Converts circumstances codec field bytes

/-- The database after the conversion of what was read of a key and value row. -/
def convertedRead (primitives : Primitives Key) (circumstances : Circumstances) (codec : FieldCodec)
    (field : SealedField) (table : TableName) (key : String) (wrap : Bytes → SqlValue)
    (db : Database TableName) : Database TableName :=
  match readOk primitives circumstances field db with
  | none => db
  | some bytes => db.upsert table "key" (keyValue key (wrap (codec.convert field bytes)))

variable {key : String}

theorem tables_ne_none_of_lookup {row : SqlRow} (found : db.lookup name column key = some row) :
    db.tables name ≠ none := by
  intro none
  rw [lookup, Database.rows, none] at found
  cases found

theorem settings_of_valueOf (db : Database TableName) (value : SqlValue)
    (found : valueOf db (.setting key) = some value) : db.tables .settings ≠ none := by
  obtain ⟨row, looked, _⟩ := Option.map_eq_some_iff.mp found
  exact tables_ne_none_of_lookup looked

theorem vaultMeta_of_valueOf (db : Database TableName) (value : SqlValue)
    (found : valueOf db (.vaultMeta key) = some value) : db.tables .vaultMeta ≠ none := by
  obtain ⟨row, looked, _⟩ := Option.map_eq_some_iff.mp found
  exact tables_ne_none_of_lookup looked

theorem exists_of_sealedBytes (stored : sealedBytes primitives db field = some bytes) :
    ∃ value, valueOf db field = some value := by
  unfold sealedBytes at stored
  cases found : valueOf db field with
  | some value => exact ⟨value, rfl⟩
  | none =>
    rw [found] at stored
    cases field <;> cases stored

theorem sealedBytes_of_readOk (read : readOk primitives circumstances field db = some bytes) :
    circumstances.refusesRead field = false ∧ sealedBytes primitives db field = some bytes := by
  unfold readOk at read
  split at read
  · cases read
  · rename_i accepted
    exact ⟨by simpa using accepted, read⟩

variable {table : TableName}

theorem does_convertRead (key : String) (wrap : Bytes → SqlValue)
    (isKeyValue : table = .vaultMeta ∨ table = .settings)
    (exist : ∀ db value, valueOf db field = some value → db.tables table ≠ none)
    {program : Program (Database TableName) RekeyError PUnit} (run : ∀ db, program.execute db =
      (match readOk primitives circumstances field db with
        | none => pure PUnit.unit
        | some bytes => convertValue codec false field bytes fun encoded =>
          putValue circumstances field table key (wrap encoded)).execute db) :
    Program.Does KeyedTables program (ReadConverts primitives circumstances codec field)
      (convertedRead primitives circumstances codec field table key wrap) := by
  have each : ∀ bytes, Program.Does KeyedTables
      (convertValue codec false field bytes fun encoded =>
        putValue circumstances field table key (wrap encoded)) _ _ :=
    fun bytes => does_convertValue fun encoded => does_putValue field key (wrap encoded) isKeyValue
  refine ⟨fun db keyed accepted => ?_, fun db keyed accepted => ?_, fun db keyed refused => ?_⟩
  · rw [run, convertedRead]
    cases read : readOk primitives circumstances field db with
    | none => rfl
    | some bytes =>
      obtain ⟨encoded, writable⟩ := accepted bytes read
      obtain ⟨value, found⟩ := exists_of_sealedBytes (sealedBytes_of_readOk read).2
      exact (each bytes).done db keyed ⟨encoded, writable, exist db value found⟩
  · rw [convertedRead]
    cases read : readOk primitives circumstances field db with
    | none => exact keyed
    | some bytes =>
      obtain ⟨encoded, writable⟩ := accepted bytes read
      obtain ⟨value, found⟩ := exists_of_sealedBytes (sealedBytes_of_readOk read).2
      exact (each bytes).kept db keyed ⟨encoded, writable, exist db value found⟩
  · rw [run]
    cases read : readOk primitives circumstances field db with
    | none =>
      refine absurd (fun bytes impossible => ?_) refused
      rw [read] at impossible
      cases impossible
    | some bytes =>
      refine (each bytes).stopped db keyed fun accepted => refused fun other sameRead => ?_
      rw [read] at sameRead
      cases sameRead
      exact ⟨accepted.1, accepted.2.1⟩

theorem does_convertSettingsB64 (key : String) :
    Program.Does KeyedTables (convertSettingsB64 primitives circumstances codec false key)
      (ReadConverts primitives circumstances codec (.setting key))
      (convertedRead primitives circumstances codec (.setting key) .settings key
        fun encoded => .text (primitives.encodeBase64 encoded)) := by
  refine does_convertRead key _ (.inr rfl) settings_of_valueOf fun db => ?_
  exact Program.execute_bind_of_ok _ (Program.execute_get db)

theorem does_convertMetaBlob (key : String) :
    Program.Does KeyedTables (convertMetaBlob primitives circumstances codec false key)
      (ReadConverts primitives circumstances codec (.vaultMeta key))
      (convertedRead primitives circumstances codec (.vaultMeta key) .vaultMeta key .blob) := by
  refine does_convertRead key _ (.inl rfl) vaultMeta_of_valueOf fun db => ?_
  exact Program.execute_bind_of_ok _ (Program.execute_get db)

/-! ### What each conversion changes -/

theorem sealedBytes_congr {other : Database TableName}
    (same : valueOf other field = valueOf db field) :
    sealedBytes primitives other field = sealedBytes primitives db field := by
  unfold sealedBytes
  rw [same]

theorem sealedBytes_upsert_setting (exist : db.tables .settings ≠ none) (key : String)
    (value : SqlValue) (own : field.ownTable) (different : field ≠ .setting key) :
    sealedBytes primitives (db.upsert .settings "key" (keyValue key value)) field =
      sealedBytes primitives db field :=
  sealedBytes_congr ((valueOf_upsert_setting exist key value own).trans (if_neg different))

theorem sealedBytes_upsert_meta (exist : db.tables .vaultMeta ≠ none) (key : String)
    (value : SqlValue) (own : field.ownTable) (different : field ≠ .vaultMeta key) :
    sealedBytes primitives (db.upsert .vaultMeta "key" (keyValue key value)) field =
      sealedBytes primitives db field :=
  sealedBytes_congr ((valueOf_upsert_meta exist key value own).trans (if_neg different))

/-- The column a field is in. -/
def SealedField.place? : SealedField → Option SealedColumn
  | .column place _ => some place
  | _ => none

/-- Converting a column leaves the key and value rows alone. -/
theorem valueOf_convertedColumn_of_none (listed : place ∈ sealedColumns) (db : Database TableName)
    (noPlace : field.place? = none) :
    valueOf (convertedColumn codec place db) field = valueOf db field := by
  have own := table_of_sealedColumns listed
  cases field with
  | column other id => cases noPlace
  | setting key => simp only [valueOf, lookup, convertedColumn, rows_mapTable, if_neg own.2.symm]
  | vaultMeta key => simp only [valueOf, lookup, convertedColumn, rows_mapTable, if_neg own.1.symm]

/-- Converting a column changes the fields of that column. -/
theorem sealedBytes_convertedColumn (listed : place ∈ sealedColumns) (db : Database TableName)
    (isSealed : field.isSealed) :
    sealedBytes primitives (convertedColumn codec place db) field =
      if field.place? = some place then (sealedBytes primitives db field).map (codec.convert field)
      else sealedBytes primitives db field := by
  cases field with
  | setting key | vaultMeta key =>
    exact (sealedBytes_congr (valueOf_convertedColumn_of_none listed db rfl)).trans
      (if_neg (by simp [SealedField.place?])).symm
  | column other id =>
    have value : valueOf (convertedColumn codec place db) (.column other id) =
        if other.table = place.table then
          (db.lookup place.table other.idColumn id).map fun row =>
            convertRow codec place row other.column
        else valueOf db (.column other id) := by
      rw [valueOf, convertedColumn, lookup_mapTable _
        (convertRow_of_ne codec place (sealedColumns_apart listed isSealed).1.symm)]
      split
      · rw [Option.map_map]
        rfl
      · rfl
    by_cases same : other = place
    · subst same
      rw [if_pos rfl] at value
      rw [SealedField.place?, if_pos rfl]
      simp only [sealedBytes, value]
      rw [valueOf]
      cases found : db.lookup other.table other.idColumn id with
      | none => rfl
      | some row =>
        have isText : row other.idColumn = .text id := by simpa using List.find?_some found
        rw [Option.map_some, Option.map_some]
        cases stored : row other.column with
        | blob stored =>
          have cell := cellOf_eq_some_iff.mpr ⟨isText, stored⟩
          rw [convertRow, convertCell, cell]
          simp
        | _ =>
          have noCell : cellOf other.idColumn other.column row = none := by
            rw [cellOf, isText, stored]
          rw [convertRow, convertCell, noCell]
          simp [stored]
    · rw [SealedField.place?, if_neg fun equal => same (Option.some.inj equal)]
      refine sealedBytes_congr ?_
      rw [value]
      split
      · rename_i sameTable
        have different : other.column ≠ place.column := fun equal =>
          same (((sealedColumns_apart isSealed listed).2 sameTable).2 equal)
        simp only [convertRow_of_ne codec place different, valueOf, sameTable]
      · rfl

variable {named : SealedField} {wrap : Bytes → SqlValue}

/-- Converting what was read of a key and value row changes that row. -/
theorem sealedBytes_convertedRead
    (exist : ∀ db value, valueOf db named = some value → db.tables table ≠ none)
    (written : ∀ db value, db.tables table ≠ none →
      valueOf (db.upsert table "key" (keyValue key value)) field =
        if field = named then some value else valueOf db field)
    (unwraps : ∀ db encoded, valueOf db named = some (wrap encoded) →
      sealedBytes primitives db named = some encoded) (db : Database TableName) :
    sealedBytes primitives (convertedRead primitives circumstances codec named table key wrap db)
        field =
      if field = named ∧ circumstances.refusesRead field = false then
        (sealedBytes primitives db field).map (codec.convert field)
      else sealedBytes primitives db field := by
  unfold convertedRead
  cases read : readOk primitives circumstances named db with
  | none =>
    change sealedBytes primitives db field = _
    split
    · rename_i same
      obtain ⟨rfl, accepted⟩ := same
      rw [readOk, accepted] at read
      change sealedBytes primitives db field = none at read
      rw [read]
      rfl
    · rfl
  | some bytes =>
    obtain ⟨accepted, stored⟩ := sealedBytes_of_readOk read
    obtain ⟨value, found⟩ := exists_of_sealedBytes stored
    have after := written db (wrap (codec.convert named bytes)) (exist db value found)
    by_cases same : field = named
    · subst same
      rw [if_pos rfl] at after
      rw [if_pos ⟨rfl, accepted⟩, stored]
      exact unwraps _ _ after
    · rw [if_neg same] at after
      rw [if_neg fun both => same both.1]
      exact sealedBytes_congr after

theorem valueOf_convertedRead_of_ne
    (exist : ∀ db value, valueOf db named = some value → db.tables table ≠ none)
    (written : ∀ db value, db.tables table ≠ none →
      valueOf (db.upsert table "key" (keyValue key value)) field =
        if field = named then some value else valueOf db field) (different : field ≠ named)
    (db : Database TableName) :
    valueOf (convertedRead primitives circumstances codec named table key wrap db) field =
      valueOf db field := by
  unfold convertedRead
  cases read : readOk primitives circumstances named db with
  | none => rfl
  | some bytes =>
    obtain ⟨value, found⟩ := exists_of_sealedBytes (sealedBytes_of_readOk read).2
    exact (written db _ (exist db value found)).trans (if_neg different)

theorem sealedBytes_convertedSetting (db : Database TableName) (key : String)
    (own : field.ownTable) :
    sealedBytes primitives (convertedRead primitives circumstances codec (.setting key) .settings
        key (fun encoded => .text (primitives.encodeBase64 encoded)) db) field =
      if field = .setting key ∧ circumstances.refusesRead field = false then
        (sealedBytes primitives db field).map (codec.convert field)
      else sealedBytes primitives db field := by
  refine sealedBytes_convertedRead settings_of_valueOf
    (fun db value exist => valueOf_upsert_setting exist key value own) (fun db encoded stored => ?_) db
  simp only [sealedBytes, stored]
  exact primitives.decodeBase64_encodeBase64 encoded

theorem sealedBytes_convertedMeta (db : Database TableName) (key : String)
    (own : field.ownTable) :
    sealedBytes primitives (convertedRead primitives circumstances codec (.vaultMeta key) .vaultMeta
        key .blob db) field =
      if field = .vaultMeta key ∧ circumstances.refusesRead field = false then
        (sealedBytes primitives db field).map (codec.convert field)
      else sealedBytes primitives db field := by
  refine sealedBytes_convertedRead vaultMeta_of_valueOf
    (fun db value exist => valueOf_upsert_meta exist key value own) (fun db encoded stored => ?_) db
  simp only [sealedBytes, stored]

end Conversion

end Oryxis

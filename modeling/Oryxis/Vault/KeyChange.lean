/-
This file proves when a change of the master key is all or nothing.

It goes through exactly where every statement inside the transaction is carried
out and every sealed value that is read opens under the old key. It then has
converted every sealed field but those whose read was refused, and the check value
opens under the new key and no other. Whatever stops it is rolled back, the refusal
of the `COMMIT` excepted.
-/

import Oryxis.Vault.Rekeying

namespace Oryxis

open Library Library.Database VaultDb List

section Conversion

variable {Key : Type} {primitives : Primitives Key} {circumstances : Circumstances}
  {codec : FieldCodec} {field : SealedField}

/-! ### All fields -/

variable {db : Database TableName}

theorem columnConverts_convertedColumn {place other : SealedColumn} (listed : place ∈ sealedColumns)
    (otherListed : other ∈ sealedColumns) (different : other ≠ place) :
    ColumnConverts circumstances codec other (convertedColumn codec place db) ↔
      ColumnConverts circumstances codec other db := by
  have exist : (convertedColumn codec place db).tables other.table ≠ none ↔
      db.tables other.table ≠ none :=
    not_congr (tables_mapTable_eq_none_iff db place.table other.table (convertRow codec place))
  -- The rows are the same in the two columns that are looked at.
  have rows : (convertedColumn codec place db).rows other.table =
      (db.rows other.table).map fun row =>
        if other.table = place.table then convertRow codec place row else row := by
    rw [convertedColumn, rows_mapTable]
    split
    · rename_i same
      rw [same]
    · simp
  have column : ∀ row : SqlRow, (if other.table = place.table then convertRow codec place row
      else row) other.column = row other.column := by
    intro row
    split
    · rename_i same
      refine convertRow_of_ne codec place (fun equal => different ?_) row
      exact ((sealedColumns_apart otherListed listed).2 same).2 equal
    · rfl
  have idColumn : ∀ row : SqlRow, (if other.table = place.table then convertRow codec place row
      else row) other.idColumn = row other.idColumn := by
    intro row
    split
    · exact convertRow_of_ne codec place (sealedColumns_apart listed otherListed).1.symm row
    · rfl
  have cell : ∀ row : SqlRow, cellOf other.idColumn other.column (if other.table = place.table then
      convertRow codec place row else row) = cellOf other.idColumn other.column row := by
    intro row
    rw [cellOf, cellOf, column, idColumn]
  constructor
  · rintro ⟨selected, present, each⟩
    refine ⟨selected, exist.mp present, fun row member value => ?_⟩
    rw [rows, forall_mem_map] at each
    have here := each row member (by rwa [column])
    rwa [cell] at here
  · rintro ⟨selected, present, each⟩
    refine ⟨selected, exist.mpr present, ?_⟩
    rw [rows, forall_mem_map]
    intro row member value
    rw [column] at value
    rw [cell]
    exact each row member value

theorem readConverts_congr {other : Database TableName}
    (same : sealedBytes primitives other field = sealedBytes primitives db field) :
    ReadConverts primitives circumstances codec field other ↔
      ReadConverts primitives circumstances codec field db := by
  simp only [ReadConverts, readOk, same]

variable {places : List SealedColumn}

theorem sealedBytes_foldl_convertedColumn (listed : ∀ place ∈ places, place ∈ sealedColumns)
    (distinct : places.Nodup) (db : Database TableName) (isSealed : field.isSealed) :
    sealedBytes primitives (places.foldl (fun db place => convertedColumn codec place db) db) field =
      if ∃ place ∈ places, field.place? = some place then
        (sealedBytes primitives db field).map (codec.convert field)
      else sealedBytes primitives db field := by
  induction places generalizing db with
  | nil => simp
  | cons place places inductionHypothesis =>
    obtain ⟨fresh, distinct⟩ := nodup_cons.mp distinct
    obtain ⟨here, listed⟩ := forall_mem_cons.mp listed
    rw [foldl_cons, inductionHypothesis listed distinct,
      sealedBytes_convertedColumn here db isSealed]
    by_cases own : field.place? = some place
    · have notLater : ¬ ∃ other ∈ places, field.place? = some other := by
        rintro ⟨other, member, same⟩
        rw [own] at same
        cases same
        exact fresh member
      rw [if_neg notLater, if_pos own, if_pos ⟨place, mem_cons_self .., own⟩]
    · simp [own]

/-- The settings after the conversion of some of them. -/
def convertedSettings (primitives : Primitives Key) (circumstances : Circumstances)
    (codec : FieldCodec) (keys : List String) (db : Database TableName) : Database TableName :=
  keys.foldl (fun db key => convertedRead primitives circumstances codec (.setting key) .settings key
    (fun encoded => .text (primitives.encodeBase64 encoded)) db) db

theorem sealedBytes_convertedSettings {keys : List String} (distinct : keys.Nodup)
    (db : Database TableName) (own : field.ownTable) :
    sealedBytes primitives (convertedSettings primitives circumstances codec keys db) field =
      if (∃ key ∈ keys, field = .setting key) ∧ circumstances.refusesRead field = false then
        (sealedBytes primitives db field).map (codec.convert field)
      else sealedBytes primitives db field := by
  unfold convertedSettings
  induction keys generalizing db with
  | nil => simp
  | cons key keys inductionHypothesis =>
    obtain ⟨fresh, distinct⟩ := nodup_cons.mp distinct
    rw [foldl_cons, inductionHypothesis distinct, sealedBytes_convertedSetting db key own]
    by_cases here : field = .setting key
    · subst here
      have notLater : ¬ ∃ other ∈ keys, SealedField.setting key = .setting other := by
        rintro ⟨other, member, same⟩
        cases same
        exact fresh member
      rw [if_neg fun both => notLater both.1]
      exact if_congr ⟨fun both => ⟨⟨key, mem_cons_self .., rfl⟩, both.2⟩,
        fun both => ⟨rfl, both.2⟩⟩ rfl rfl
    · simp [here]

/-- Everything `convert_all_fields` reads can be converted. -/
structure FieldsConvert (primitives : Primitives Key) (circumstances : Circumstances)
    (codec : FieldCodec) (db : Database TableName) : Prop where
  columns : ∀ place ∈ sealedColumns, ColumnConverts circumstances codec place db
  settings : ∀ key ∈ encryptedSettingKeys,
    ReadConverts primitives circumstances codec (.setting key) db
  sessionLog : ReadConverts primitives circumstances codec (.vaultMeta sessionLogKey) db

def convertedFields (primitives : Primitives Key) (circumstances : Circumstances)
    (codec : FieldCodec) (db : Database TableName) : Database TableName :=
  convertedRead primitives circumstances codec (.vaultMeta sessionLogKey) .vaultMeta sessionLogKey
    .blob (convertedSettings primitives circumstances codec encryptedSettingKeys
      (sealedColumns.foldl (fun db place => convertedColumn codec place db) db))

/-- A field whose read is refused is passed over; a column cannot be. -/
def SealedField.passedOver (circumstances : Circumstances) : SealedField → Prop
  | .column .. => False
  | field => circumstances.refusesRead field = true

theorem sealedBytes_convertedFields (db : Database TableName) (isSealed : field.isSealed) :
    (field.passedOver circumstances →
      sealedBytes primitives (convertedFields primitives circumstances codec db) field =
        sealedBytes primitives db field) ∧
    (¬ field.passedOver circumstances →
      sealedBytes primitives (convertedFields primitives circumstances codec db) field =
        (sealedBytes primitives db field).map (codec.convert field)) := by
  have own := SealedField.ownTable_of_isSealed isSealed
  rw [convertedFields, sealedBytes_convertedMeta _ _ own,
    sealedBytes_convertedSettings (by decide) _ own,
    sealedBytes_foldl_convertedColumn (fun _ listed => listed) (by decide) db isSealed]
  cases field with
  | column place id =>
    refine ⟨False.elim, fun _ => ?_⟩
    rw [if_neg (by simp), if_neg (by simp), if_pos ⟨place, isSealed, rfl⟩]
  | setting key =>
    have listed : ∃ other ∈ encryptedSettingKeys, SealedField.setting key = .setting other :=
      ⟨key, isSealed, rfl⟩
    have noColumn : ¬ ∃ place ∈ sealedColumns, (SealedField.setting key).place? = some place := by
      simp [SealedField.place?]
    have noMeta : SealedField.setting key ≠ .vaultMeta sessionLogKey := by simp
    simp only [noMeta, noColumn, false_and, if_false]
    refine ⟨fun passed => if_neg fun both => ?_, fun read => if_pos ⟨listed, ?_⟩⟩
    · rw [show circumstances.refusesRead (.setting key) = true from passed] at both
      cases both.2
    · simpa [SealedField.passedOver] using read
  | vaultMeta key =>
    have isKey : key = sessionLogKey := isSealed
    subst isKey
    have noSetting : ¬ ∃ other ∈ encryptedSettingKeys,
        SealedField.vaultMeta sessionLogKey = .setting other := by simp
    have noColumn : ¬ ∃ place ∈ sealedColumns,
        (SealedField.vaultMeta sessionLogKey).place? = some place := by
      simp [SealedField.place?]
    simp only [noSetting, noColumn, false_and, if_false]
    refine ⟨fun passed => if_neg fun both => ?_, fun read => if_pos ⟨trivial, ?_⟩⟩
    · rw [show circumstances.refusesRead (.vaultMeta sessionLogKey) = true from passed] at both
      cases both.2
    · simpa [SealedField.passedOver] using read

theorem does_convertAllFields :
    Program.Does KeyedTables (convertAllFields primitives circumstances codec false)
      (FieldsConvert primitives circumstances codec)
      (convertedFields primitives circumstances codec) := by
  have columns : Program.Does KeyedTables
      (List.forM sealedColumns (convertBlobColumn circumstances codec false)) _ _ :=
    Program.Does.forM (fun place listed => does_convertBlobColumn listed) (by
      have distinct : sealedColumns.Nodup := by decide
      refine distinct.imp_of_mem fun {place other} listed otherListed different db _ _ => ?_
      exact columnConverts_convertedColumn listed otherListed different.symm)
  have settings : Program.Does KeyedTables
      (List.forM encryptedSettingKeys (convertSettingsB64 primitives circumstances codec false)) _ _ :=
    Program.Does.forM (fun key _ => does_convertSettingsB64 key) (by
      have distinct : encryptedSettingKeys.Nodup := by decide
      refine distinct.imp fun {key other} different db _ _ => readConverts_congr ?_
      rw [sealedBytes_convertedSetting db key (show (SealedField.setting other).ownTable from trivial)]
      exact if_neg fun both => different (SealedField.setting.inj both.1).symm)
  refine (columns.seq (settings.seq (does_convertMetaBlob sessionLogKey))).congr
    (fun db _ => ?_) fun _ _ _ => rfl
  have keptSetting : ∀ key ∈ encryptedSettingKeys,
      sealedBytes primitives (sealedColumns.foldl (fun db place => convertedColumn codec place db) db)
        (.setting key) = sealedBytes primitives db (.setting key) := by
    intro key listed
    rw [sealedBytes_foldl_convertedColumn (fun _ listed => listed) (by decide) db
      (show (SealedField.setting key).isSealed from listed)]
    exact if_neg (by simp [SealedField.place?])
  have keptMeta : sealedBytes primitives (convertedSettings primitives circumstances codec
      encryptedSettingKeys (sealedColumns.foldl (fun db place => convertedColumn codec place db) db))
        (.vaultMeta sessionLogKey) = sealedBytes primitives db (.vaultMeta sessionLogKey) := by
    have distinct : encryptedSettingKeys.Nodup := by decide
    have isSealed : (SealedField.vaultMeta sessionLogKey).isSealed := rfl
    rw [sealedBytes_convertedSettings distinct _ (SealedField.ownTable_of_isSealed isSealed),
      if_neg (by simp),
      sealedBytes_foldl_convertedColumn (fun _ listed => listed) (by decide) db isSealed]
    exact if_neg (by simp [SealedField.place?])
  constructor
  · rintro ⟨columns, settings, sessionLog⟩
    exact ⟨columns, fun key listed => (readConverts_congr (keptSetting key listed)).mpr
      (settings key listed), (readConverts_congr keptMeta).mpr sessionLog⟩
  · rintro ⟨columns, settings, sessionLog⟩
    exact ⟨columns, fun key listed => (readConverts_congr (keptSetting key listed)).mp
      (settings key listed), (readConverts_congr keptMeta).mp sessionLog⟩

/-! ### The check value and its salt -/

theorem valueOf_foldl_convertedColumn (listed : ∀ place ∈ places, place ∈ sealedColumns)
    (db : Database TableName) (noPlace : field.place? = none) :
    valueOf (places.foldl (fun db place => convertedColumn codec place db) db) field =
      valueOf db field := by
  induction places generalizing db with
  | nil => rfl
  | cons place places inductionHypothesis =>
    obtain ⟨here, listed⟩ := forall_mem_cons.mp listed
    rw [foldl_cons, inductionHypothesis listed, valueOf_convertedColumn_of_none here db noPlace]

/-- The conversion leaves the other rows of the meta table alone. -/
theorem valueOf_convertedFields {key : String} (different : key ≠ sessionLogKey)
    (db : Database TableName) :
    valueOf (convertedFields primitives circumstances codec db) (.vaultMeta key) =
      valueOf db (.vaultMeta key) := by
  have own : (SealedField.vaultMeta key).ownTable := trivial
  have settings : ∀ keys db, valueOf (convertedSettings primitives circumstances codec keys db)
      (.vaultMeta key) = valueOf db (.vaultMeta key) := by
    intro keys
    induction keys with
    | nil => exact fun _ => rfl
    | cons first keys inductionHypothesis =>
      intro db
      refine (inductionHypothesis _).trans ?_
      exact valueOf_convertedRead_of_ne settings_of_valueOf
        (fun db value exist => valueOf_upsert_setting exist first value own) (by simp) db
  rw [convertedFields, valueOf_convertedRead_of_ne vaultMeta_of_valueOf
    (fun db value exist => valueOf_upsert_meta exist sessionLogKey value own)
    (fun same => different (SealedField.vaultMeta.inj same)), settings,
    valueOf_foldl_convertedColumn (fun _ listed => listed) db rfl]

/-- With its salt, its parameters and its check value stored, a vault verifies the passwords that
give the key of the check. -/
theorem verifyPassword_of_stored {salt : Salt} {params : KdfParams} {json : String}
    {nonce : Option Nonce} {check : Bytes} {newKey key : Key}
    (hasSalt : valueOf db (.vaultMeta "kdf_salt") = some (.blob salt.bytes))
    (hasParams : valueOf db (.vaultMeta "kdf_params") = some (.text json))
    (hasCheck : valueOf db (.vaultMeta "password_check") = some (.blob check))
    (isJson : primitives.toJson params = some json)
    (isSealed : encryptWithKey primitives nonce checkPlain newKey = .ok check) (fresh : Option Salt)
    {password : Bytes} (derived : primitives.hashPassword params password salt.bytes = some key) :
    ∃ verified, ((verifyPassword primitives circumstances fresh password).execute db).1 =
      .ok verified ∧ (verified = true ↔ key = newKey) := by
  have format : checkIsDerivedKeyFormat check = true := by
    obtain ⟨drawn, text, _, _, rfl⟩ := encryptWithKey_eq_ok isSealed
    simp [checkIsDerivedKeyFormat, length_encryptWithKey isSealed]
  have stored : storedSalt db = some salt.bytes := by
    rw [storedSalt, hasSalt]
    exact if_pos salt.length_eq
  have read : readKdfParams primitives db = params := by
    rw [readKdfParams, hasParams]
    simp only
    rw [primitives.fromJson_toJson isJson]
    rfl
  have derive : (deriveVaultKey primitives circumstances fresh password).execute db =
      (.ok key, db) := by
    rw [deriveVaultKey, Program.execute_bind_of_ok _ (Program.execute_get db), stored,
      Program.execute_bind_of_ok _ (Program.execute_pure _ db),
      Program.execute_bind_of_ok _ (Program.execute_get db), read, derived]
    rfl
  refine ⟨decide ((decryptWithKey primitives check key).toOption = some checkPlain), ?_, ?_⟩
  · rw [verifyPassword, Program.execute_bind_of_ok _ (Program.execute_get db), hasCheck]
    simp only [format, if_true]
    rw [Program.execute_bind_of_ok _ derive]
    rfl
  · rw [decide_eq_true_iff]
    constructor
    · intro opens
      cases opened : decryptWithKey primitives check key with
      | ok plain => exact key_of_decryptWithKey isSealed opened
      | error error =>
        rw [opened] at opens
        cases opens
    · rintro rfl
      rw [decryptWithKey_encryptWithKey isSealed]
      rfl

end Conversion

/-! ### The change -/

section Change

variable {Key : Type} (primitives : Primitives Key) (circumstances : Circumstances)
  (oldKey newKey : Key) (userFlag : String) (salt : Salt) (params : KdfParams)

/-- Every statement inside the transaction is carried out, and every sealed value that is read
opens under the old key. -/
structure RekeyGoesThrough (db : Database TableName) : Prop where
  metaTable : db.tables .vaultMeta ≠ none
  settingsTable : db.tables .settings ≠ none
  saltWritten : circumstances.refusesWrite (.vaultMeta "kdf_salt") = false
  paramsWritten : (∃ json, primitives.toJson params = some json) ∧
    circumstances.refusesWrite (.vaultMeta "kdf_params") = false
  fields : FieldsConvert primitives circumstances
    (rekeyCodec primitives circumstances oldKey newKey) db
  checkWritten : (∃ check, encryptWithKey primitives
      (circumstances.nonce (.vaultMeta "password_check")) checkPlain newKey = .ok check) ∧
    circumstances.refusesWrite (.vaultMeta "password_check") = false
  flagWritten : circumstances.refusesWrite (.setting "has_user_password") = false

/-- The new salt and the new parameters. -/
def withDerivation (json : String) (db : Database TableName) : Database TableName :=
  (db.upsert .vaultMeta "key" (keyValue "kdf_salt" (.blob salt.bytes))).upsert .vaultMeta "key"
    (keyValue "kdf_params" (.text json))

/-- The new check value, and whether the password is the user's. -/
def withCheck (check : Bytes) (db : Database TableName) : Database TableName :=
  (db.upsert .vaultMeta "key" (keyValue "password_check" (.blob check))).upsert .settings "key"
    (keyValue "has_user_password" (.text userFlag))

/-- What a change that goes through leaves. -/
def rekeyed (db : Database TableName) : Database TableName :=
  withCheck userFlag
    (((encryptWithKey primitives (circumstances.nonce (.vaultMeta "password_check")) checkPlain
      newKey).toOption).getD [])
    (convertedFields primitives circumstances (rekeyCodec primitives circumstances oldKey newKey)
      (withDerivation salt ((primitives.toJson params).getD "") db))

variable {primitives circumstances oldKey newKey userFlag salt params}

variable {db : Database TableName}

theorem columnConverts_of_tables {codec : FieldCodec} {place : SealedColumn}
    {other : Database TableName} (same : other.tables place.table = db.tables place.table) :
    ColumnConverts circumstances codec place other ↔ ColumnConverts circumstances codec place db := by
  have rows : other.rows place.table = db.rows place.table := by
    rw [Database.rows, Database.rows, same]
  constructor
  · rintro ⟨selected, exist, each⟩
    exact ⟨selected, same ▸ exist, rows ▸ each⟩
  · rintro ⟨selected, exist, each⟩
    exact ⟨selected, same ▸ exist, rows ▸ each⟩

theorem fieldsConvert_upsert_meta {codec : FieldCodec} {key : String}
    (exist : db.tables .vaultMeta ≠ none) (different : key ≠ sessionLogKey) (value : SqlValue) :
    FieldsConvert primitives circumstances codec
        (db.upsert .vaultMeta "key" (keyValue key value)) ↔
      FieldsConvert primitives circumstances codec db := by
  have column : ∀ place ∈ sealedColumns,
      (ColumnConverts circumstances codec place (db.upsert .vaultMeta "key" (keyValue key value)) ↔
        ColumnConverts circumstances codec place db) := fun place listed =>
    columnConverts_of_tables (tables_upsert_of_ne db "key" (keyValue key value)
      (table_of_sealedColumns listed).1)
  have read : ∀ field : SealedField, field.ownTable → field ≠ .vaultMeta key →
      (ReadConverts primitives circumstances codec field
          (db.upsert .vaultMeta "key" (keyValue key value)) ↔
        ReadConverts primitives circumstances codec field db) := fun field own apart =>
    readConverts_congr (sealedBytes_upsert_meta exist key value own apart)
  have sessionLog : SealedField.vaultMeta sessionLogKey ≠ .vaultMeta key :=
    fun same => different (SealedField.vaultMeta.inj same).symm
  constructor
  · rintro ⟨columns, settings, log⟩
    exact ⟨fun place listed => (column place listed).mp (columns place listed),
      fun key listed => (read (.setting key) trivial (by simp)).mp (settings key listed),
      (read (.vaultMeta sessionLogKey) trivial sessionLog).mp log⟩
  · rintro ⟨columns, settings, log⟩
    exact ⟨fun place listed => (column place listed).mpr (columns place listed),
      fun key listed => (read (.setting key) trivial (by simp)).mpr (settings key listed),
      (read (.vaultMeta sessionLogKey) trivial sessionLog).mpr log⟩

theorem does_writeKdfParams :
    Program.Does KeyedTables (writeKdfParams primitives circumstances params)
      (fun db => (∃ json, primitives.toJson params = some json) ∧
        circumstances.refusesWrite (.vaultMeta "kdf_params") = false ∧ db.tables .vaultMeta ≠ none)
      (fun db => db.upsert .vaultMeta "key"
        (keyValue "kdf_params" (.text ((primitives.toJson params).getD "")))) := by
  unfold writeKdfParams
  cases primitives.toJson params with
  | none =>
    refine (Program.Does.throw _).congr (fun db _ => ?_) fun _ _ impossible => impossible.elim
    simp
  | some json =>
    refine (does_putValue (.vaultMeta "kdf_params") "kdf_params" (.text json) (.inl rfl)).congr
      (fun db _ => ?_) fun _ _ _ => rfl
    exact ⟨And.right, fun accepted => ⟨⟨json, rfl⟩, accepted⟩⟩

theorem does_writeCheck :
    Program.Does KeyedTables
      (Program.ofExcept (encryptWithKey primitives
          (circumstances.nonce (.vaultMeta "password_check")) checkPlain newKey) >>= fun check =>
        putMeta circumstances "password_check" (.blob check) >>= fun _ =>
          putSetting circumstances "has_user_password" userFlag)
      (fun db => (∃ check, encryptWithKey primitives
          (circumstances.nonce (.vaultMeta "password_check")) checkPlain newKey = .ok check) ∧
        circumstances.refusesWrite (.vaultMeta "password_check") = false ∧
        circumstances.refusesWrite (.setting "has_user_password") = false ∧
        db.tables .vaultMeta ≠ none ∧ db.tables .settings ≠ none)
      (withCheck userFlag (((encryptWithKey primitives
        (circumstances.nonce (.vaultMeta "password_check")) checkPlain newKey).toOption).getD [])) := by
  cases encryptWithKey primitives (circumstances.nonce (.vaultMeta "password_check")) checkPlain
      newKey with
  | error error =>
    refine (Program.Does.throw error).congr (fun db _ => ?_) fun _ _ impossible => impossible.elim
    simp
  | ok check =>
    refine ((does_putValue (.vaultMeta "password_check") "password_check" (.blob check)
      (.inl rfl)).seq (does_putValue (.setting "has_user_password") "has_user_password"
        (.text userFlag) (.inr rfl))).congr (fun db _ => ?_) fun _ _ _ => rfl
    simp only [ne_eq, tables_upsert_eq_none_iff]
    constructor
    · rintro ⟨_, checkWritten, flagWritten, metaTable, settingsTable⟩
      exact ⟨⟨checkWritten, metaTable⟩, flagWritten, settingsTable⟩
    · rintro ⟨⟨checkWritten, metaTable⟩, flagWritten, settingsTable⟩
      exact ⟨⟨check, rfl⟩, checkWritten, flagWritten, metaTable, settingsTable⟩

theorem tables_convertedFields_eq_none_iff {codec : FieldCodec} (db : Database TableName)
    (name : TableName) :
    (convertedFields primitives circumstances codec db).tables name = none ↔
      db.tables name = none := by
  have read : ∀ field table key wrap (db : Database TableName),
      (convertedRead primitives circumstances codec field table key wrap db).tables name = none ↔
        db.tables name = none := by
    intro field table key wrap db
    unfold convertedRead
    split
    · rfl
    · exact tables_upsert_eq_none_iff ..
  have columns : ∀ (places : List SealedColumn) (db : Database TableName),
      (places.foldl (fun db place => convertedColumn codec place db) db).tables name = none ↔
        db.tables name = none := by
    intro places
    induction places with
    | nil => exact fun _ => Iff.rfl
    | cons place places inductionHypothesis =>
      exact fun db => (inductionHypothesis _).trans (tables_mapTable_eq_none_iff ..)
  have settings : ∀ keys (db : Database TableName),
      (convertedSettings primitives circumstances codec keys db).tables name = none ↔
        db.tables name = none := by
    intro keys
    induction keys with
    | nil => exact fun _ => Iff.rfl
    | cons key keys inductionHypothesis =>
      exact fun db => (inductionHypothesis _).trans (read ..)
  exact (read ..).trans ((settings ..).trans (columns ..))

/-- What the transaction does. -/
theorem does_rekey :
    Program.Does KeyedTables (rekey primitives circumstances oldKey newKey userFlag salt params)
      (RekeyGoesThrough primitives circumstances oldKey newKey params)
      (rekeyed primitives circumstances oldKey newKey userFlag salt params) := by
  refine ((does_putValue (.vaultMeta "kdf_salt") "kdf_salt" (.blob salt.bytes) (.inl rfl)).seq
    (does_writeKdfParams.seq (does_convertAllFields.seq does_writeCheck))).congr
      (fun db _ => ?_) fun _ _ _ => rfl
  have fields : db.tables .vaultMeta ≠ none →
      (FieldsConvert primitives circumstances (rekeyCodec primitives circumstances oldKey newKey)
          ((db.upsert .vaultMeta "key" (keyValue "kdf_salt" (.blob salt.bytes))).upsert .vaultMeta
            "key" (keyValue "kdf_params" (.text ((primitives.toJson params).getD "")))) ↔
        FieldsConvert primitives circumstances (rekeyCodec primitives circumstances oldKey newKey)
          db) := fun exist =>
    (fieldsConvert_upsert_meta (by rwa [Ne, tables_upsert_eq_none_iff]) (by decide) _).trans
      (fieldsConvert_upsert_meta exist (by decide) _)
  simp only [ne_eq, tables_convertedFields_eq_none_iff, tables_upsert_eq_none_iff]
  constructor
  · rintro ⟨metaTable, settingsTable, saltWritten, paramsWritten, converts, checkWritten, flagWritten⟩
    exact ⟨⟨saltWritten, metaTable⟩, ⟨paramsWritten.1, paramsWritten.2, metaTable⟩,
      (fields metaTable).mpr converts, checkWritten.1, checkWritten.2, flagWritten, metaTable,
      settingsTable⟩
  · rintro ⟨⟨saltWritten, metaTable⟩, ⟨isJson, paramsWritten, _⟩, converts, check, checkWritten,
      flagWritten, _, settingsTable⟩
    exact ⟨metaTable, settingsTable, saltWritten, ⟨isJson, paramsWritten⟩,
      (fields metaTable).mp converts, ⟨check, checkWritten⟩, flagWritten⟩

/-! ### All or nothing -/

variable (primitives oldKey newKey salt params)

/-- Every sealed field opens under the new key to what it was, and the check value verifies the
passwords that give the new key. -/
structure Rekeyed (before after : Database TableName) : Prop where
  opens : ∀ field : SealedField, field.isSealed → ∀ plain,
    openField primitives oldKey before field = some plain →
      openField primitives newKey after field = some plain
  verifies : ∀ circumstances fresh password key,
    primitives.hashPassword params password salt.bytes = some key →
      ∃ verified, ((verifyPassword primitives circumstances fresh password).execute after).1 =
        .ok verified ∧ (verified = true ↔ key = newKey)

variable (circumstances userFlag)

/-- A success has changed every field, and a failure nothing. -/
def AllOrNothing (vault : OpenVault Key) : Prop :=
  match changeMasterKey primitives circumstances oldKey newKey userFlag salt params vault with
  | (.ok _, after) =>
    Rekeyed primitives oldKey newKey salt params vault.db after.db ∧ after.masterKey = some newKey
  | (.error _, after) => after = vault

/-- A change that reaches its `COMMIT` is not refused there with the transaction left open, and no
field it passed over had a secret. -/
def ReachesTheEnd (vault : OpenVault Key) : Prop :=
  circumstances.refusesBegin = false → vault.begun = none →
    RekeyGoesThrough primitives circumstances oldKey newKey params vault.db →
    circumstances.commit ≠ .leftOpen ∧
      (circumstances.commit = .committed → ∀ field : SealedField, field.isSealed →
        field.passedOver circumstances → ∀ plain,
          openField primitives oldKey vault.db field = some plain →
            openField primitives newKey vault.db field = some plain)

variable {primitives oldKey newKey salt params circumstances userFlag}

/-- The bytes of a sealed field after a change that went through. -/
theorem sealedBytes_rekeyed
    (through : RekeyGoesThrough primitives circumstances oldKey newKey params db)
    {field : SealedField} (isSealed : field.isSealed) :
    (field.passedOver circumstances →
      sealedBytes primitives (rekeyed primitives circumstances oldKey newKey userFlag salt params db)
        field = sealedBytes primitives db field) ∧
    (¬ field.passedOver circumstances →
      sealedBytes primitives (rekeyed primitives circumstances oldKey newKey userFlag salt params db)
        field = (sealedBytes primitives db field).map
          ((rekeyCodec primitives circumstances oldKey newKey).convert field)) := by
  have own := SealedField.ownTable_of_isSealed isSealed
  have notMeta : ∀ key, key ≠ sessionLogKey → field ≠ .vaultMeta key := by
    rintro key different rfl
    exact different isSealed
  have notFlag : field ≠ .setting "has_user_password" := by
    rintro rfl
    have listed : "has_user_password" ∈ encryptedSettingKeys := isSealed
    exact absurd listed (by decide)
  have before : sealedBytes primitives
      (withDerivation salt ((primitives.toJson params).getD "") db) field =
        sealedBytes primitives db field :=
    (sealedBytes_upsert_meta (by rw [Ne, tables_upsert_eq_none_iff]; exact through.metaTable) _ _ own
      (notMeta _ (by decide))).trans
      (sealedBytes_upsert_meta through.metaTable _ _ own (notMeta _ (by decide)))
  have after : ∀ check converted, converted.tables .vaultMeta ≠ none →
      converted.tables .settings ≠ none →
      sealedBytes primitives (withCheck userFlag check converted) field =
        sealedBytes primitives converted field := fun check converted metaTable settingsTable =>
    (sealedBytes_upsert_setting (by rwa [Ne, tables_upsert_eq_none_iff]) _ _ own notFlag).trans
      (sealedBytes_upsert_meta metaTable _ _ own (notMeta _ (by decide)))
  have exist : ∀ name, db.tables name ≠ none → (convertedFields primitives circumstances
      (rekeyCodec primitives circumstances oldKey newKey)
        (withDerivation salt ((primitives.toJson params).getD "") db)).tables name ≠ none := by
    intro name present
    rwa [Ne, tables_convertedFields_eq_none_iff, withDerivation, tables_upsert_eq_none_iff,
      tables_upsert_eq_none_iff]
  rw [rekeyed, after _ _ (exist _ through.metaTable) (exist _ through.settingsTable), ← before]
  exact sealedBytes_convertedFields _ isSealed

/-- A sealed value that is read is converted. -/
theorem converts_of_sealedBytes {codec : FieldCodec}
    (converts : FieldsConvert primitives circumstances codec db) {field : SealedField}
    (isSealed : field.isSealed) (read : ¬ field.passedOver circumstances) {bytes : Bytes}
    (stored : sealedBytes primitives db field = some bytes) :
    Converts circumstances codec field bytes := by
  cases field with
  | column place id =>
    have value : valueOf db (.column place id) = some (.blob bytes) := by
      unfold sealedBytes at stored
      cases found : valueOf db (.column place id) with
      | none =>
        rw [found] at stored
        cases stored
      | some value =>
        rw [found] at stored
        cases value with
        | blob bytes =>
          cases stored
          rfl
        | _ => cases stored
    obtain ⟨row, looked, isBlob⟩ := Option.map_eq_some_iff.mp value
    have isText : row place.idColumn = .text id := by simpa using find?_some looked
    obtain ⟨otherId, otherBytes, cell, here⟩ := (converts.columns place isSealed).each row
      (mem_of_find?_eq_some looked) (by rw [isBlob]; simp)
    obtain ⟨sameText, sameBlob⟩ := cellOf_eq_some_iff.mp cell
    rw [isText] at sameText
    rw [isBlob] at sameBlob
    cases sameText
    cases sameBlob
    exact here
  | setting key =>
    exact converts.settings key isSealed bytes ((if_neg read).trans stored)
  | vaultMeta key =>
    have isKey : key = sessionLogKey := isSealed
    subst isKey
    exact converts.sessionLog bytes ((if_neg read).trans stored)

/-- The rows a password is verified by, after a change that went through. -/
theorem valueOf_rekeyed {json : String} {check : Bytes}
    (through : RekeyGoesThrough primitives circumstances oldKey newKey params db)
    (isJson : primitives.toJson params = some json)
    (isSealed : encryptWithKey primitives (circumstances.nonce (.vaultMeta "password_check"))
      checkPlain newKey = .ok check) (key : String) (different : key ≠ sessionLogKey) :
    valueOf (rekeyed primitives circumstances oldKey newKey userFlag salt params db)
        (.vaultMeta key) =
      if key = "password_check" then some (.blob check)
      else if key = "kdf_params" then some (.text json)
      else if key = "kdf_salt" then some (.blob salt.bytes)
      else valueOf db (.vaultMeta key) := by
  have own : (SealedField.vaultMeta key).ownTable := trivial
  have metaTable := through.metaTable
  have exist : ∀ name, db.tables name ≠ none → (convertedFields primitives circumstances
      (rekeyCodec primitives circumstances oldKey newKey)
        (withDerivation salt json db)).tables name ≠ none := by
    intro name present
    rwa [Ne, tables_convertedFields_eq_none_iff, withDerivation, tables_upsert_eq_none_iff,
      tables_upsert_eq_none_iff]
  have same : ∀ other, (SealedField.vaultMeta key = .vaultMeta other) = (key = other) :=
    fun other => propext ⟨SealedField.vaultMeta.inj, congrArg _⟩
  simp only [rekeyed, isJson, isSealed, Option.getD_some, Except.toOption, withCheck]
  rw [valueOf_upsert_setting _ _ _ own, if_neg (by simp),
    valueOf_upsert_meta (exist _ metaTable) _ _ own, valueOf_convertedFields different,
    withDerivation, valueOf_upsert_meta _ _ _ own, valueOf_upsert_meta metaTable _ _ own]
  · simp only [same]
  · rwa [Ne, tables_upsert_eq_none_iff]
  · rw [Ne, tables_upsert_eq_none_iff]
    exact exist _ through.settingsTable

/-- A change that went through has converted every secret, except where a refused read hid one. -/
theorem rekeyed_iff (through : RekeyGoesThrough primitives circumstances oldKey newKey params db) :
    Rekeyed primitives oldKey newKey salt params db
        (rekeyed primitives circumstances oldKey newKey userFlag salt params db) ↔
      ∀ field : SealedField, field.isSealed → field.passedOver circumstances → ∀ plain,
        openField primitives oldKey db field = some plain →
          openField primitives newKey db field = some plain := by
  constructor
  · rintro ⟨opens, _⟩ field isSealed passed plain opened
    have after := opens field isSealed plain opened
    rwa [openField, (sealedBytes_rekeyed through isSealed).1 passed] at after
  · intro hidden
    refine ⟨fun field isSealed plain opened => ?_, fun around fresh password key derived => ?_⟩
    · by_cases passed : field.passedOver circumstances
      · rw [openField, (sealedBytes_rekeyed through isSealed).1 passed]
        exact hidden field isSealed passed plain opened
      · obtain ⟨bytes, stored, opens⟩ := Option.bind_eq_some_iff.mp opened
        obtain ⟨⟨encoded, reencoded⟩, _⟩ :=
          converts_of_sealedBytes through.fields isSealed passed stored
        have isPlain : decryptWithKey primitives bytes oldKey = .ok plain := by
          cases decrypted : decryptWithKey primitives bytes oldKey with
          | ok other =>
            rw [decrypted] at opens
            exact congrArg _ (Option.some.inj opens)
          | error error =>
            rw [decrypted] at opens
            cases opens
        have resealed : encryptWithKey primitives (circumstances.nonce field) plain newKey =
            .ok encoded := by
          simp only [FieldCodec.reencode, rekeyCodec, isPlain] at reencoded
          exact reencoded
        rw [openField, (sealedBytes_rekeyed through isSealed).2 passed, stored, Option.map_some,
          Option.bind_some, FieldCodec.convert, reencoded]
        simp only
        rw [decryptWithKey_encryptWithKey resealed]
        rfl
    · obtain ⟨json, isJson⟩ := through.paramsWritten.1
      obtain ⟨check, isSealed⟩ := through.checkWritten.1
      have stored : ∀ key, key ≠ sessionLogKey → valueOf
          (rekeyed primitives circumstances oldKey newKey userFlag salt params db)
          (.vaultMeta key) = _ := valueOf_rekeyed through isJson isSealed
      exact verifyPassword_of_stored (stored "kdf_salt" (by decide))
        (stored "kdf_params" (by decide)) (stored "password_check" (by decide)) isJson isSealed
        fresh derived

variable {vault : OpenVault Key}

theorem AllOrNothing.rekeyed
    (whole : AllOrNothing primitives circumstances oldKey newKey userFlag salt params vault)
    (succeeds : (changeMasterKey primitives circumstances oldKey newKey userFlag salt params
      vault).1 = .ok ()) :
    Rekeyed primitives oldKey newKey salt params vault.db
      (changeMasterKey primitives circumstances oldKey newKey userFlag salt params vault).2.db := by
  unfold AllOrNothing at whole
  generalize changeMasterKey primitives circumstances oldKey newKey userFlag salt params vault =
    outcome at whole succeeds
  obtain ⟨result, after⟩ := outcome
  cases succeeds
  exact whole.1

theorem AllOrNothing.unchanged
    (whole : AllOrNothing primitives circumstances oldKey newKey userFlag salt params vault)
    {error : RekeyError} (fails : (changeMasterKey primitives circumstances oldKey newKey userFlag
      salt params vault).1 = .error error) :
    (changeMasterKey primitives circumstances oldKey newKey userFlag salt params vault).2 =
      vault := by
  unfold AllOrNothing at whole
  generalize changeMasterKey primitives circumstances oldKey newKey userFlag salt params vault =
    outcome at whole fails
  obtain ⟨result, after⟩ := outcome
  cases fails
  exact whole

end Change

def zeroNonce : Nonce := ⟨List.replicate nonceLen 0, rfl⟩

def zeroSalt : Salt := ⟨List.replicate saltLen 0, rfl⟩

/-- Circumstances in which nothing is refused. -/
def Circumstances.willing : Circumstances where
  refusesBegin := false
  refusesSelect _ := false
  refusesRead _ := false
  refusesWrite _ := false
  nonce _ := some zeroNonce
  commit := .committed

/-- A vault whose key is 1, with a key for the assistant sealed under it. -/
def vaultWithApiKey : OpenVault UInt8 where
  db := ⟨fun
    | .settings => some [keyValue "ai_api_key"
        (.text (lettersOfBytes (fieldFormatV2 :: (zeroNonce.bytes ++ List.replicate tagLen 1 ++ [65]))))]
    | _ => some []⟩
  begun := none
  masterKey := some 1

theorem keyedTables_vaultWithApiKey : KeyedTables vaultWithApiKey.db := by
  intro place listed
  have noSettings : place.table ≠ .settings := (table_of_sealedColumns listed).2
  have noRow : vaultWithApiKey.db.rows place.table = [] := by
    unfold vaultWithApiKey Database.rows
    cases isTable : place.table with
    | settings => exact absurd isTable noSettings
    | _ => rfl
  rw [noRow]
  exact List.Pairwise.nil

end Oryxis

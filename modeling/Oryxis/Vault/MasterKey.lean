/-
This file is `change_master_key`: a new salt, every sealed field under a new key, a
new check value, all in one transaction.

The fields are found by three lists kept by hand: the sealed columns, the sealed
settings and one row of the meta table. A column is read by a statement whose
refusal stops the change, and so is every write; the transaction is then rolled
back. Two statements are treated otherwise. The read of a setting or of the meta
row takes a refusal for a missing row and goes on without converting it. And a
refused `COMMIT` returns at once, so that what the change has written stays in
the open transaction.
-/

import Oryxis.Vault.Schema
import Oryxis.Vault.Sealing

namespace Oryxis

open Library

/-! ### The sealed fields -/

structure SealedColumn where
  table : TableName
  idColumn : String
  column : String
  deriving DecidableEq, Repr

/-- The columns `convert_all_fields` walks. -/
def sealedColumns : List SealedColumn :=
  [⟨.connections, "id", "password"⟩, ⟨.connections, "id", "proxy_password"⟩,
    ⟨.connections, "id", "totp_secret"⟩, ⟨.connections, "id", "target_password"⟩,
    ⟨.keys, "id", "private_key"⟩, ⟨.identities, "id", "password"⟩,
    ⟨.proxyIdentities, "id", "password"⟩, ⟨.cloudProfiles, "id", "secret"⟩,
    ⟨.syncPeers, "peer_id", "shared_secret"⟩]

def encryptedSettingKeys : List String :=
  ["ai_api_key", "files_recent_folders", "sync_sftp_passphrase", "sync_webdav_password",
    "sync_device_identity"]

def sessionLogKey : String := "session_log_key"

/-- A stored value that the master key may seal. -/
inductive SealedField where
  | column (place : SealedColumn) (id : String)
  | setting (key : String)
  | vaultMeta (key : String)
  deriving DecidableEq, Repr

/-- What the vault seals under its master key. -/
def SealedField.isSealed : SealedField → Prop
  | .column place _ => place ∈ sealedColumns
  | .setting key => key ∈ encryptedSettingKeys
  | .vaultMeta key => key = sessionLogKey

namespace VaultDb

/-- The value stored for a field. -/
def valueOf (db : Database TableName) : SealedField → Option SqlValue
  | .column place id => (db.lookup place.table place.idColumn id).map fun row => row place.column
  | .setting key => (db.lookup .settings "key" key).map fun row => row "value"
  | .vaultMeta key => (db.lookup .vaultMeta "key" key).map fun row => row "value"

end VaultDb

/-- What surrounds the change: what the engine refuses, and the nonces the system's generator
returns. -/
inductive CommitOutcome where
  | committed
  | leftOpen
  | rolledBack
  deriving DecidableEq, Repr

structure Circumstances where
  refusesBegin : Bool
  refusesSelect : SealedColumn → Bool
  refusesRead : SealedField → Bool
  refusesWrite : SealedField → Bool
  nonce : SealedField → Option Nonce
  commit : CommitOutcome

variable {Key : Type} (primitives : Primitives Key) (circumstances : Circumstances)

/-- The sealed bytes a field stores. A setting stores them as a text. -/
def sealedBytes (db : Database TableName) (field : SealedField) : Option Bytes :=
  match field, VaultDb.valueOf db field with
  | .setting _, some (.text text) => primitives.decodeBase64 text
  | .setting _, _ => none
  | _, some (.blob bytes) => some bytes
  | _, _ => none

/-- What a field opens to. -/
def openField (key : Key) (db : Database TableName) (field : SealedField) : Option Bytes :=
  (sealedBytes primitives db field).bind fun bytes => (decryptWithKey primitives bytes key).toOption

/-! ### The conversion -/

/-- A row of a key and value table. -/
def keyValue (key : String) (value : SqlValue) : SqlRow :=
  (SqlRow.null.set "key" (.text key)).set "value" value

/-- `INSERT OR REPLACE` into a key and value table. -/
def putValue (field : SealedField) (table : TableName) (key : String) (value : SqlValue) :
    Program (Database TableName) RekeyError PUnit :=
  Program.attempt fun db =>
    if circumstances.refusesWrite field ∨ db.tables table = none then .error .engine
    else .ok (db.upsert table "key" (keyValue key value))

def putMeta (key : String) (value : SqlValue) : Program (Database TableName) RekeyError PUnit :=
  putValue circumstances (.vaultMeta key) .vaultMeta key value

def putSetting (key text : String) : Program (Database TableName) RekeyError PUnit :=
  putValue circumstances (.setting key) .settings key (.text text)

/-- How a field is decoded and encoded again. -/
structure FieldCodec where
  dec : Bytes → Except RekeyError Bytes
  enc : SealedField → Bytes → Except RekeyError Bytes

/-- The rows of one column, as the statement reads them. -/
def readColumn (place : SealedColumn) (db : Database TableName) :
    Except RekeyError (List (String × Bytes)) :=
  if circumstances.refusesSelect place ∨ db.tables place.table = none then .error .engine
  else
    match Database.selectColumn (db.rows place.table) place.idColumn place.column with
    | none => .error .columnType
    | some cells => .ok cells

def updateColumn (place : SealedColumn) (id : String) (bytes : Bytes) :
    Program (Database TableName) RekeyError PUnit :=
  Program.attempt fun db =>
    if circumstances.refusesWrite (.column place id) then .error .engine
    else .ok (db.mapTable place.table (Database.updateCell place.idColumn place.column id bytes))

/-- One sealed value: decoded, encoded again, and written back. A value that does not decode is
skipped when the conversion is lenient. -/
def convertValue (codec : FieldCodec) (lenient : Bool) (field : SealedField) (bytes : Bytes)
    (write : Bytes → Program (Database TableName) RekeyError PUnit) :
    Program (Database TableName) RekeyError PUnit :=
  match codec.dec bytes with
  | .ok plain => do
    let encoded ← Program.ofExcept (codec.enc field plain)
    write encoded
  | .error error => if lenient then pure PUnit.unit else throw error

def convertBlobColumn (codec : FieldCodec) (lenient : Bool) (place : SealedColumn) :
    Program (Database TableName) RekeyError PUnit := do
  let cells ← Program.ofExcept (readColumn circumstances place (← MonadState.get))
  List.forM cells fun cell =>
    convertValue codec lenient (.column place cell.1) cell.2
      (updateColumn circumstances place cell.1)

/-- The bytes of a setting or of a meta row: `None` where there is none, and where the read was
refused. -/
def readOk (field : SealedField) (db : Database TableName) : Option Bytes :=
  if circumstances.refusesRead field then none else sealedBytes primitives db field

def convertSettingsB64 (codec : FieldCodec) (lenient : Bool) (key : String) :
    Program (Database TableName) RekeyError PUnit := do
  match readOk primitives circumstances (.setting key) (← MonadState.get) with
  | none => pure PUnit.unit
  | some bytes =>
    convertValue codec lenient (.setting key) bytes fun encoded =>
      putSetting circumstances key (primitives.encodeBase64 encoded)

def convertMetaBlob (codec : FieldCodec) (lenient : Bool) (key : String) :
    Program (Database TableName) RekeyError PUnit := do
  match readOk primitives circumstances (.vaultMeta key) (← MonadState.get) with
  | none => pure PUnit.unit
  | some bytes =>
    convertValue codec lenient (.vaultMeta key) bytes fun encoded =>
      putMeta circumstances key (.blob encoded)

def convertAllFields (codec : FieldCodec) (lenient : Bool) :
    Program (Database TableName) RekeyError PUnit := do
  List.forM sealedColumns (convertBlobColumn circumstances codec lenient)
  List.forM encryptedSettingKeys (convertSettingsB64 primitives circumstances codec lenient)
  convertMetaBlob primitives circumstances codec lenient sessionLogKey

/-! ### The change -/

/-- From under the old key to under the new one. -/
def rekeyCodec (oldKey newKey : Key) : FieldCodec where
  dec bytes := decryptWithKey primitives bytes oldKey
  enc field plain := encryptWithKey primitives (circumstances.nonce field) plain newKey

def reEncryptAll (oldKey newKey : Key) : Program (Database TableName) RekeyError PUnit :=
  convertAllFields primitives circumstances (rekeyCodec primitives circumstances oldKey newKey) false

def writeKdfParams (params : KdfParams) : Program (Database TableName) RekeyError PUnit :=
  match primitives.toJson params with
  | none => throw (.crypto "kdf_params serialize")
  | some json => putMeta circumstances "kdf_params" (.text json)

/-- What happens inside the transaction. -/
def rekey (oldKey newKey : Key) (userFlag : String) (salt : Salt) (params : KdfParams) :
    Program (Database TableName) RekeyError PUnit := do
  putMeta circumstances "kdf_salt" (.blob salt.bytes)
  writeKdfParams primitives circumstances params
  reEncryptAll primitives circumstances oldKey newKey
  let check ← Program.ofExcept
    (encryptWithKey primitives (circumstances.nonce (.vaultMeta "password_check")) checkPlain newKey)
  putMeta circumstances "password_check" (.blob check)
  putSetting circumstances "has_user_password" userFlag

/-- The vault's connection: what it reads, what a rollback would go back to while a transaction is
open, and the key in memory. -/
structure OpenVault (Key : Type) where
  db : Database TableName
  begun : Option (Database TableName)
  masterKey : Option Key

def changeMasterKey (oldKey newKey : Key) (userFlag : String) (salt : Salt) (params : KdfParams)
    (vault : OpenVault Key) : Except RekeyError Unit × OpenVault Key :=
  if circumstances.refusesBegin ∨ vault.begun ≠ none then (.error .engine, vault)
  else
    match (rekey primitives circumstances oldKey newKey userFlag salt params).execute vault.db with
    | (.error error, _) => (.error error, vault)
    | (.ok _, db) =>
      match circumstances.commit with
      | .committed => (.ok (), { vault with db := db, masterKey := some newKey })
      | .leftOpen => (.error .engine, { vault with db := db, begun := some vault.db })
      | .rolledBack => (.error .engine, vault)

/-! ### The password check -/

def storedSalt (db : Database TableName) : Option Bytes :=
  match VaultDb.valueOf db (.vaultMeta "kdf_salt") with
  | some (.blob bytes) => if bytes.length = saltLen then some bytes else none
  | _ => none

def readKdfParams (db : Database TableName) : KdfParams :=
  match VaultDb.valueOf db (.vaultMeta "kdf_params") with
  | some (.text json) => (primitives.fromJson json).getD KdfParams.default
  | _ => KdfParams.default

/-- The key of a password. A salt is made and stored where there is none of the right length. -/
def deriveVaultKey (fresh : Option Salt) (password : Bytes) :
    Program (Database TableName) RekeyError Key := do
  let salt ← match storedSalt (← MonadState.get), fresh with
    | some bytes, _ => pure bytes
    | none, none => throw (.crypto "OS RNG")
    | none, some salt => do
      putMeta circumstances "kdf_salt" (.blob salt.bytes)
      pure salt.bytes
  match primitives.hashPassword (readKdfParams primitives (← MonadState.get)) password salt with
  | none => throw (.crypto "Argon2 error")
  | some key => pure key

def verifyPassword (fresh : Option Salt) (password : Bytes) :
    Program (Database TableName) RekeyError Bool := do
  match VaultDb.valueOf (← MonadState.get) (.vaultMeta "password_check") with
  | some (.blob check) =>
    if checkIsDerivedKeyFormat check then
      let key ← deriveVaultKey primitives circumstances fresh password
      pure (decide ((decryptWithKey primitives check key).toOption = some checkPlain))
    else pure (decide ((decryptLegacy primitives check password).toOption = some checkPlain))
  | _ => throw .locked

end Oryxis

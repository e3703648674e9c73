/-
This file is the portable file: its header and what its payload holds.

What a setting decides about this device alone stays out of it, and so does the trust
a host was given here.

The header is written out byte by byte. The text form of the payload and the cipher
of the file are code outside this repository.
-/

import Oryxis.Portable.Store
import Oryxis.Vault.Sealing

namespace Oryxis.Portable

/-! ### The header -/

def magic : Bytes := "ORYXIS".toList.map fun letter => letter.toNat.toUInt8

def formatVersion : Nat := 1

def headerLen : Nat := 12

def flagIncludesKeys : Nat := 1

/-- A number in so many bytes, the least significant first. -/
def toLeBytes : Nat → Nat → Bytes
  | 0, _ => []
  | width + 1, value => (value % 256).toUInt8 :: toLeBytes width (value / 256)

def fromLeBytes (bytes : Bytes) : Nat :=
  bytes.foldr (fun byte value => byte.toNat + 256 * value) 0

def buildHeader (flags : Nat) : Bytes := magic ++ toLeBytes 2 formatVersion ++ toLeBytes 4 flags

/-- The version and the flags. -/
def validateHeader (data : Bytes) : Except VaultError (Nat × Nat) :=
  if data.length < headerLen then .error (.crypto "File too short")
  else if data.take 6 ≠ magic then .error (.crypto "Invalid file format")
  else
    let version := fromLeBytes ((data.drop 6).take 2)
    let flags := fromLeBytes ((data.drop 8).take 4)
    if formatVersion < version then
      .error (.crypto ("Unsupported format version " ++ toString version ++ " (max supported: " ++
        toString formatVersion ++ ")"))
    else .ok (version, flags)

/-! ### The payload -/

structure ExportConnection where
  connection : Connection
  password : Option String
  proxyPassword : Option String
  totpSecret : Option String
  targetPassword : Option String
  deriving DecidableEq, Repr

structure ExportKey where
  key : SshKey
  privateKey : Option String
  deriving DecidableEq, Repr

structure ExportIdentity where
  identity : Identity
  password : Option String
  deriving DecidableEq, Repr

structure ExportProxyIdentity where
  proxyIdentity : ProxyIdentity
  password : Option String
  deriving DecidableEq, Repr

structure ExportCloudProfile where
  profile : CloudProfile
  secret : Option String
  deriving DecidableEq, Repr

structure ExportPayload where
  version : Nat
  exportedAt : Stamp
  includesPrivateKeys : Bool
  groups : List Group
  connections : List ExportConnection
  keys : List ExportKey
  identities : List ExportIdentity
  proxyIdentities : List ExportProxyIdentity
  cloudProfiles : List ExportCloudProfile
  snippets : List Snippet
  portForwardRules : List PortForwardRule
  knownHosts : List KnownHost
  sessionGroups : List SessionGroup
  loginScripts : List LoginScript
  settings : List Setting
  customTerminalThemes : List CustomTerminalTheme
  deriving DecidableEq, Repr

/-- The text form of a payload, and the cipher of a file. -/
structure FileCodec where
  toJson : ExportPayload → Except VaultError Bytes
  fromJson : Bytes → Except VaultError ExportPayload
  encrypt : Bytes → String → Except VaultError Bytes
  decrypt : Bytes → String → Except VaultError Bytes
  fromJson_toJson : ∀ {payload json}, toJson payload = .ok json → fromJson json = .ok payload
  decrypt_encrypt : ∀ {plain password sealedText}, encrypt plain password = .ok sealedText →
    decrypt sealedText password = .ok plain

def letters (text : String) : Bytes := text.toList.map fun letter => letter.toNat.toUInt8

/-- A codec that writes one payload, as one byte, and the password in front of it. -/
def FileCodec.only (payload : ExportPayload) : FileCodec where
  toJson other := if other = payload then .ok [1] else .error (.crypto "Serialization failed")
  fromJson json := if json = [1] then .ok payload else .error (.crypto "Invalid export data")
  encrypt plain password := .ok (letters password ++ plain)
  decrypt text password :=
    if (letters password).isPrefixOf text then .ok (text.drop (letters password).length)
    else .error .invalidPassword
  fromJson_toJson {other json} written := by
    split at written
    · cases written
      simp_all
    · cases written
  decrypt_encrypt written := by
    cases written
    simp

/-- A payload without anything in it. -/
def ExportPayload.empty : ExportPayload where
  version := formatVersion
  exportedAt := 0
  includesPrivateKeys := true
  groups := []
  connections := []
  keys := []
  identities := []
  proxyIdentities := []
  cloudProfiles := []
  snippets := []
  portForwardRules := []
  knownHosts := []
  sessionGroups := []
  loginScripts := []
  settings := []
  customTerminalThemes := []

/-- The header, the cipher and the text form, one after the other. -/
def decryptPayload (codec : FileCodec) (data : Bytes) (password : String) :
    Except VaultError ExportPayload := do
  let _ ← validateHeader data
  let json ← codec.decrypt (data.drop headerLen) password
  codec.fromJson json

/-! ### What is selected -/

structure ExportSelection where
  connections : Bool
  groups : Bool
  keys : Bool
  identities : Bool
  proxyIdentities : Bool
  cloudProfiles : Bool
  snippets : Bool
  knownHosts : Bool
  portForwardRules : Bool
  sessionGroups : Bool
  settings : Bool

def ExportSelection.all : ExportSelection where
  connections := true
  groups := true
  keys := true
  identities := true
  proxyIdentities := true
  cloudProfiles := true
  snippets := true
  knownHosts := true
  portForwardRules := true
  sessionGroups := true
  settings := true

/-- Settings whose value is a trust decision. -/
def denySecurity : List String :=
  ["terminal_link_confirm", "local_terminals", "local_terminal_default", "sftp_default_editor",
    "sftp_file_double_click", "snippet_output_dir", "zmodem_download_dir", "session_log_file_dir",
    "command_history_file_dir", "download_mirror", "terminal_clipboard_access",
    "agent_server_enabled", "agent_server_confirm", "agent_server_allow_add",
    "agent_server_openssh_pipe", "auto_lock_minutes", "update_channel", "ai_api_url",
    "terminal_password_autofill"]

/-- Settings that are about this device or this vault. -/
def denyExact : List String :=
  ["sync_device_identity", "has_user_password", "sync_device_name", "sync_listen_port",
    "sync_listen_port_auto", "sync_signaling_token", "sync_sftp_passphrase", "sync_webdav_password",
    "sync_git_remote", "sync_webdav_url", "sync_webdav_user", "sync_folder_path",
    "mcp_server_token", "mcp_server_allow_writes", "mcp_server_allow_transfers", "sync_enabled",
    "sync_mode", "mcp_server_enabled", "skipped_update_version", "pinned_tabs", "open_tabs",
    "open_tabs_active", "files_recent_folders"]

def isPortableSetting (key : String) : Bool :=
  !(denyExact.contains key || denySecurity.contains key) &&
    !("hint_".toList.isPrefixOf key.toList || "_migrated".toList.isSuffixOf key.toList ||
      "_applied".toList.isSuffixOf key.toList)

/-- The trust decision of a host is one field, and options that say nothing are none. -/
def Connection.stripLocalTrust (host : Connection) : Connection :=
  { host with
    telnet := (host.telnet.map fun options => { options with tlsInsecure := false }).filter
      fun options => !options.isDefault }

end Oryxis.Portable

import Oryxis.Vault.Destroy
import Oryxis.Vault.KeyChange
import Oryxis.Sync.PrivateKeys
import Oryxis.Sync.Merging
import Oryxis.Sftp.Confinement
import Oryxis.Sftp.Resume
import Oryxis.Zmodem.Downloads
import Oryxis.Portable.Atomicity
import Oryxis.Mcp.Pinning
import Oryxis.Consent.Forging
import Oryxis.Consent.Polling
import Oryxis.Consent.Withdrawing
import Oryxis.Archive.Extract
import Oryxis.Mcp.HostWrites
import Oryxis.Relay.Inbox
import Oryxis.Telnet.Lines
import Oryxis.Ssh.Forwards
import Oryxis.Assistant.Stopping
import Oryxis.Assistant.Unattended
import Oryxis.Telnet.Disclosure
import Oryxis.Zmodem.Detector
import Oryxis.Zmodem.SignOff
import Oryxis.Zmodem.Budget
import Oryxis.Zmodem.SafeNames
import Oryxis.Sync.AttemptCap
import Oryxis.Sync.HelloFirst
import Oryxis.Vault.Salvage
import Oryxis.Sync.BatchOrder
import Oryxis.Telnet.Framing
import Oryxis.Telnet.Typing
import Oryxis.Sftp.Copies
import Oryxis.Sftp.ScratchNames
import Oryxis.Shell.Glob
import Oryxis.Shell.Completion
import Oryxis.Terminal.ScreenTitle
import Oryxis.Login.Totp
import Oryxis.Login.Prompts
import Oryxis.Mcp.Retries
import Oryxis.Terminal.ShellMarks
import Oryxis.Terminal.Vouching
import Oryxis.Ssh.CookieSwap
import Oryxis.Ssh.ProxyBanner
import Oryxis.Archive.RangedReader
import Oryxis.Archive.Browse
import Oryxis.Fido2.Search
import Oryxis.Archive.Quoting
import Oryxis.Ssh.Config
import Oryxis.Recording.Spool
import Oryxis.Sftp.Barrier
import Oryxis.Assistant.Events
import Oryxis.Mcp.JumpRoute
import Oryxis.Sync.SessionMap
import Oryxis.Importers.Folders
import Oryxis.Snippets.Flatten
import Oryxis.Recording.Player
import Oryxis.Mcp.Inheritance

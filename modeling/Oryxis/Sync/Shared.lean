/-
This file says when two devices hold the same version of an entity.

The columns that stay on a device do not count: when a host was last used, which
certificates its owner trusts, and the secrets where they are not shared. Nor do
references to entities that are gone. A deletion clears them where it is carried
out, without a new stamp, and leaves them where a row arrives after it.
-/

import Oryxis.Sync.Turns

namespace Oryxis

/-- A secret column as every setter writes it: an empty text is `NULL`. -/
def storedSecret (secret : Option String) : Option String := secret.filter fun text => text != ""

def ConnectionSecrets.stored (secrets : ConnectionSecrets) : ConnectionSecrets where
  password := storedSecret secrets.password
  proxyPassword := storedSecret secrets.proxyPassword
  totpSecret := storedSecret secrets.totpSecret
  targetPassword := storedSecret secrets.targetPassword

namespace Row

/-- A row as it is read back after a save. -/
def stored : Row → Row
  | .connection host secrets => .connection host.stored secrets.stored
  | .sshKey entity privateKey => .sshKey entity (storedSecret privateKey)
  | .identity entity password => .identity entity (storedSecret password)
  | .group entity => .group entity.stored
  | .proxyIdentity entity password => .proxyIdentity entity (storedSecret password)
  | .cloudProfile entity secret => .cloudProfile entity (storedSecret secret)
  | row => row

/-- A key without its private half, which a device that has it keeps. -/
def isPublicOnly : Row → Bool
  | .sshKey _ privateKey => (storedSecret privateKey).isNone
  | _ => false

/-- What a row shares with other devices, with or without its secrets. -/
def shared (withSecrets : Bool) (row : Row) : SyncPayload := row.stored.toPayload withSecrets

end Row

/-- A host without its references to entities that are gone. -/
def Connection.forget (gone : List EntityKey) (host : Connection) : Connection :=
  { host with
    identityId := host.identityId.filter fun id => !gone.contains (.identity, id)
    proxyIdentityId := host.proxyIdentityId.filter fun id => !gone.contains (.proxyIdentity, id)
    loginScriptId := host.loginScriptId.filter fun id => !gone.contains (.loginScript, id)
    loginScriptVars :=
      if host.loginScriptId.any fun id => gone.contains (.loginScript, id) then []
      else host.loginScriptVars }

def SyncPayload.forget (gone : List EntityKey) : SyncPayload → SyncPayload
  | .connection host password proxyPassword totpSecret targetPassword =>
    .connection (host.forget gone) password proxyPassword totpSecret targetPassword
  | payload => payload

/-- A payload without its secrets. -/
def SyncPayload.withhold : SyncPayload → SyncPayload
  | .connection host .. =>
    .connection host ⟨none, false⟩ ⟨none, false⟩ ⟨none, false⟩ ⟨none, false⟩
  | .sshKey entity _ => .sshKey entity none
  | .identity entity _ => .identity entity ⟨none, false⟩
  | .proxyIdentity entity _ => .proxyIdentity entity ⟨none, false⟩
  | .cloudProfile entity _ => .cloudProfile entity ⟨none, false⟩
  | payload => payload

namespace Row

/-- Two rows are the same version, up to references to what is gone. -/
def AgreesUpTo (gone : List EntityKey) (withSecrets : Bool) (row other : Row) : Prop :=
  (row.shared withSecrets).forget gone = (other.shared withSecrets).forget gone

theorem AgreesUpTo.refl (gone : List EntityKey) (withSecrets : Bool) (row : Row) :
    row.AgreesUpTo gone withSecrets row := rfl

theorem agreesUpTo_of_shared {withSecrets : Bool} {row other : Row}
    (same : row.shared withSecrets = other.shared withSecrets) (gone : List EntityKey) :
    row.AgreesUpTo gone withSecrets other :=
  congrArg (SyncPayload.forget gone) same

end Row

/-! ### What a device may do to its own copy -/

theorem storedSecret_storedSecret (secret : Option String) :
    storedSecret (storedSecret secret) = storedSecret secret := by
  rw [storedSecret, storedSecret, Option.filter_filter]
  simp only [Bool.and_self]

/-- A secret that was sent replaces the stored one, also where there is none. -/
theorem secretColumn_sent (secret own : Option String) :
    VaultStore.secretColumn (secretArg (.sent true secret)) own = storedSecret secret := by
  cases secret with
  | none => rfl
  | some value =>
    by_cases empty : value = "" <;>
      simp [WireSecret.sent, secretArg, VaultStore.secretColumn, storedSecret, Option.filter_some,
        empty]

theorem Connection.stored_received (host : Connection) (lastUsed : Option Stamp) :
    { ({ { host.stripLocalTrust with lastUsed := none }.stripLocalTrust with
        lastUsed := lastUsed } : Connection).stored.stored.stripLocalTrust with lastUsed := none } =
      { host.stored.stripLocalTrust with lastUsed := none } := by
  simp only [Connection.stored, Connection.stripLocalTrust, Connection.mk.injEq, true_and, and_true]
  constructor
  · by_cases named : host.loginScriptId.isSome = true <;> simp [named]
  · -- Stripping and dropping all-default options can be done any number of times.
    cases host.telnet with
    | none => rfl
    | some options =>
      obtain ⟨tls, tlsInsecure⟩ := options
      cases tls <;> cases tlsInsecure <;> rfl

/-- A received row is the version that was sent. -/
theorem Row.shared_received (vault : VaultStore) (lastUsed : Option Stamp)
    {withSecrets syncPasswords : Bool} {row : Row}
    (sent : withSecrets = true → syncPasswords = true ∧ row.isPublicOnly = false) :
    (vault.received lastUsed (row.toPayload syncPasswords)).shared withSecrets =
      row.shared withSecrets := by
  cases withSecrets with
  | false =>
    cases row with
    | connection host secrets =>
      simp only [shared, stored, Row.toPayload, VaultStore.received, Connection.stored_received]
      rfl
    | group group =>
      simp only [shared, stored, Row.toPayload, VaultStore.received, Group.stored,
        Option.filter_filter, Bool.and_self]
    | _ => rfl
  | true =>
    obtain ⟨rfl, hasKey⟩ := sent rfl
    cases row with
    | connection host secrets =>
      simp only [shared, stored, Row.toPayload, VaultStore.received, Connection.stored_received,
        ConnectionSecrets.stored, secretColumn_sent, storedSecret_storedSecret]
    | sshKey entity privateKey =>
      cases kept : storedSecret privateKey with
      | none =>
        rw [isPublicOnly, kept] at hasKey
        cases hasKey
      | some pem =>
        have notEmpty : pem ≠ "" := by
          simpa using (Option.filter_eq_some_iff.mp kept).2
        have column : ∀ own, VaultStore.secretColumn (some pem) own = some pem := fun own =>
          if_neg notEmpty
        have received : privateKey.filter (fun pem => pem != "") = some pem := kept
        simp only [shared, stored, Row.toPayload, VaultStore.received, received, column, kept,
          if_pos]
        rw [← kept, storedSecret_storedSecret]
    | identity entity password =>
      simp only [shared, stored, Row.toPayload, VaultStore.received, secretColumn_sent,
        storedSecret_storedSecret]
    | group group =>
      simp only [shared, stored, Row.toPayload, VaultStore.received, Group.stored,
        Option.filter_filter, Bool.and_self]
    | proxyIdentity entity password =>
      simp only [shared, stored, Row.toPayload, VaultStore.received, secretColumn_sent,
        storedSecret_storedSecret]
    | cloudProfile entity secret =>
      simp only [shared, stored, Row.toPayload, VaultStore.received, secretColumn_sent,
        storedSecret_storedSecret]
    | _ => rfl

/-- Which columns a deletion clears is seen in what is shared. -/
theorem Row.shared_forget_detach {gone : List EntityKey} {key : EntityKey} (member : key ∈ gone)
    (withSecrets : Bool) (row : Row) :
    ((row.detach key).shared withSecrets).forget gone = (row.shared withSecrets).forget gone := by
  have cleared : ∀ (type : EntityType) (reference : Option Uuid),
      ((clearReference key type reference).filter fun id => !gone.contains (type, id)) =
        reference.filter fun id => !gone.contains (type, id) := by
    intro type reference
    rw [clearReference, Option.filter_filter]
    refine congrArg (fun keep => reference.filter keep) (funext fun id => ?_)
    by_cases same : (type, id) = key
    · have isGone : gone.contains (type, id) = true := List.contains_iff_mem.mpr (same ▸ member)
      rw [isGone, Bool.not_true, Bool.and_false]
    · rw [bne_iff_ne.mpr same, Bool.true_and]
  cases row with
  | connection host secrets =>
    simp only [Row.detach, Row.shared, Row.stored, Row.toPayload, SyncPayload.forget,
      Connection.forget, Connection.detach, Connection.stored, Connection.stripLocalTrust, cleared]
    congr 2
    cases named : host.loginScriptId with
    | none => simp [clearReference]
    | some id =>
      by_cases same : (.loginScript, id) = key
      · simp [clearReference, same, member]
      · simp [clearReference, same]
  | _ => rfl

section Agreement

variable {gone : List EntityKey} {withSecrets : Bool} {row other : Row}

/-- Which host a rule hangs on is shared. -/
theorem Row.orphanedBy_of_agrees (agrees : row.AgreesUpTo gone withSecrets other)
    (key : EntityKey) : row.orphanedBy key = other.orphanedBy key := by
  have carried : ∀ row : Row, row.orphanedBy key =
      match (row.shared withSecrets).forget gone with
      | .portForwardRule rule => decide ((EntityType.connection, rule.hostId) = key)
      | _ => false := by
    intro row
    cases row <;> rfl
  rw [carried row, carried other, agrees]

/-- So is what a pin is a pin of. -/
theorem Row.endpoint_of_agrees (agrees : row.AgreesUpTo gone withSecrets other) :
    row.endpoint = other.endpoint := by
  have carried : ∀ row : Row, row.endpoint =
      match (row.shared withSecrets).forget gone with
      | .knownHost pin => some (pin.hostname, pin.port)
      | _ => none := by
    intro row
    cases row <;> rfl
  rw [carried row, carried other, agrees]

/-- Whether what is sent holds no private key where it could. -/
def SyncPayload.isPublicOnly : SyncPayload → Bool
  | .sshKey _ privateKey => privateKey.isNone
  | _ => false

theorem Row.isPublicOnly_of_agrees (agrees : row.AgreesUpTo gone true other) :
    row.isPublicOnly = other.isPublicOnly := by
  have carried : ∀ row : Row,
      row.isPublicOnly = ((row.shared true).forget gone).isPublicOnly := by
    intro row
    cases row <;> rfl
  rw [carried row, carried other, agrees]

/-- Who shares the secrets shares the rest. -/
theorem Row.agreesUpTo_of_withSecrets (agrees : row.AgreesUpTo gone withSecrets other)
    {fewer : Bool} (fewerSecrets : fewer = true → withSecrets = true) :
    row.AgreesUpTo gone fewer other := by
  cases fewer with
  | true => rwa [fewerSecrets rfl] at agrees
  | false =>
    cases withSecrets with
    | false => exact agrees
    | true =>
      have withheld : ∀ row : Row,
          (row.shared false).forget gone = ((row.shared true).forget gone).withhold := by
        intro row
        cases row <;> rfl
      unfold AgreesUpTo
      rw [withheld row, withheld other, agrees]

end Agreement

end Oryxis

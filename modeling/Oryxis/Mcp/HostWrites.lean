/-
This file is the two calls by which an AI client writes a host, and the guard that is
to keep the stored secrets of the vault from going where they did not go before.

The guard judges one write against the vault as it is. It takes a host for one that
uses an identity wherever it ends up with it, also where the host's own password wins
and the identity's is never sent; and it asks which identity the written host ends up
with while the password that the call takes away is still stored. Where neither makes a
difference, no sequence of calls sends a stored secret over a new route.
-/

import Oryxis.Library.Machine
import Oryxis.Library.Outcome
import Oryxis.Library.Text
import Oryxis.Mcp.Dials

namespace Oryxis.Writes

open Library VaultStore

/-! ### The fields of a call -/

inductive Field (Value : Type)
  | absent
  | clear
  | set (value : Value)

structure Params where
  label : Field String
  hostname : Field String
  port : Option Nat
  mcpEnabled : Option Bool
  group : Field String
  key : Field String
  identity : Field String
  jumpChain : Field (List String)
  namesProxy : Bool
  password : Field String

structure SshTarget where
  host : String
  username : Option String
  password : Option String
  port : Option Nat

/-- How the text of a field is read that may be an id, or a host. -/
structure Reading where
  parseUuid : String → Option Uuid
  fromHostField : String → Option SshTarget

inductive WriteError
  | writesOff
  | missing (name : String)
  | empty (name : String)
  | notAHost (input : String)
  | moreThanAHost (input : String)
  | unknown (what input : String)
  | ambiguous (what input : String)
  | ownHop
  | proxy
  | hostNotFound
  | notSsh
  | keptOut
  | passwordStays (label : String)
  | totpStays (label : String)
  | hostsBehind (label : String)
  | identityStays (identity : Uuid)

def Field.map {Value Result : Type} (change : Value → Result) : Field Value → Field Result
  | .absent => .absent
  | .clear => .clear
  | .set value => .set (change value)

/-- A text field, without the blanks around it. -/
def strField (field : Field String) : Field String := field.map trim

variable (reading : Reading)

def hostOnly (input : String) : Except WriteError String :=
  let input := trim input
  if input = "" then .error (.empty "hostname")
  else
    match reading.fromHostField input with
    | none => .error (.notAHost input)
    | some target =>
      if target.username.isSome || target.password.isSome || target.port.isSome then
        .error (.moreThanAHost input)
      else if target.host.toList.head? = some '-' then .error (.notAHost input)
      else .ok target.host

/-- One of several, by id or by exact label. -/
def resolveNamed (what input : String) (items : List (Uuid × String)) : Except WriteError Uuid :=
  match reading.parseUuid input with
  | some id => if id ∈ items.map Prod.fst then .ok id else .error (.unknown what input)
  | none =>
    match items.filter fun item => item.2 = input with
    | [item] => .ok item.1
    | [] => .error (.unknown what input)
    | _ => .error (.ambiguous what input)

def resolvePathOrLabel (groups : List Group) (input : String) : Option Uuid :=
  let input := trim input
  let candidates := groups.filter Group.isManual
  if input = "" then none
  else ((candidates.find? fun group => pathOf groups group.id = input).or
    (candidates.find? fun group => group.label = input)).map Group.id

/-- A folder is never made. -/
def resolveGroup (vault : VaultStore) (input : String) : Except WriteError Uuid :=
  let manual := vault.groups.filter Group.isManual
  if (!manual.any fun group => pathOf vault.groups group.id = trim input) &&
      decide (1 < (manual.filter fun group => group.label = trim input).length) then
    .error (.ambiguous "folder" input)
  else
    match resolvePathOrLabel vault.groups input with
    | some id => .ok id
    | none => .error (.unknown "folder" input)

/-- What becomes of a reference: kept, cleared, also by an empty text, or resolved. -/
def reference (old : Option Uuid) (field : Field String)
    (resolve : String → Except WriteError Uuid) : Except WriteError (Option Uuid) :=
  match strField field with
  | .absent => .ok old
  | .clear => .ok none
  | .set text => if text = "" then .ok none else (resolve text).map some

/-- The hops of a chain, each once. -/
def resolveHops (vault : VaultStore) (conn : Connection) :
    List String → List Uuid → Except WriteError (List Uuid)
  | [], chain => .ok chain
  | hop :: hops, chain => do
    let id ← resolveNamed reading "host" hop
      (vault.connections.rows.map fun other => (other.id, other.label))
    if id = conn.id then throw .ownHop
    resolveHops vault conn hops (if id ∈ chain then chain else chain ++ [id])

def newLabel (conn : Connection) (params : Params) : Except WriteError String :=
  match strField params.label with
  | .set label => if label = "" then .error (.empty "label") else .ok label
  | _ => .ok conn.label

def newHostname (conn : Connection) (params : Params) : Except WriteError String :=
  match strField params.hostname with
  | .set hostname => hostOnly reading hostname
  | _ => .ok conn.hostname

def newJumpChain (vault : VaultStore) (conn : Connection) (params : Params) :
    Except WriteError (List Uuid) :=
  match params.jumpChain with
  | .absent => .ok conn.jumpChain
  | .clear => .ok []
  | .set hops => resolveHops reading vault conn ((hops.map trim).filter (· ≠ "")) []

/-- What the call does to the host's own password: nothing, clear it, or set it. -/
def newPassword (params : Params) : Option String :=
  match params.password with
  | .absent => none
  | .clear => some ""
  | .set password => some password

def applyFields (vault : VaultStore) (conn : Connection) (params : Params) :
    Except WriteError (Connection × Option String) := do
  let label ← newLabel conn params
  let hostname ← newHostname reading conn params
  let groupId ← reference conn.groupId params.group (resolveGroup vault)
  let keyId ← reference conn.keyId params.key fun text =>
    resolveNamed reading "key" text (vault.keys.map fun key => (key.id, key.label))
  let identityId ← reference conn.identityId params.identity fun text =>
    resolveNamed reading "identity" text
      (vault.identities.map fun identity => (identity.id, identity.label))
  let jumpChain ← newJumpChain reading vault conn params
  if params.namesProxy then throw .proxy
  return ({ conn with
    label := label
    hostname := hostname
    port := params.port.getD conn.port
    mcpEnabled := params.mcpEnabled.getD conn.mcpEnabled
    groupId := groupId
    keyId := keyId
    identityId := identityId
    jumpChain := jumpChain }, newPassword params)

/-! ### The guard -/

section

variable (vault : VaultStore)

def hasTotpSecret (id : Uuid) : Bool :=
  ((vault.connections.get? id).bind Connection.totpSecret).isSome

/-- The hosts whose chain leads through one of a stack of hops; each is put on the stack once. -/
def hostsBehind (origin : Uuid) : Nat → List Uuid → List Uuid → List Uuid
  | 0, _, behind => behind
  | _ + 1, [], behind => behind
  | fuel + 1, hop :: frontier, behind =>
    let found := (vault.connections.rows.filter fun host =>
      hop ∈ host.jumpChain && host.id ≠ origin && host.id ∉ behind).map Connection.id
    hostsBehind origin fuel (found.reverse ++ frontier) (behind ++ found)

/-- The hosts behind one that store a secret. -/
def carrying (origin : Uuid) : List Connection :=
  let behind := hostsBehind vault origin (vault.connections.rows.length + 1) [origin] []
  vault.connections.rows.filter fun host => host.id ∈ behind &&
    (vault.connectionHasPassword host.id || hasTotpSecret vault host.id ||
      (vault.effectiveIdentity host).any vault.identityHasPassword)

/-- A host that is taken to use the identity over the route of the written one. -/
def vouches (conn : Connection) (identity : Uuid) (host : Connection) : Bool :=
  host.id ≠ conn.id && host.mcpEnabled && host.isSsh && endpoint host = endpoint conn &&
    vault.route host = vault.route conn && vault.effectiveIdentity host = some identity

/-- Whether the written host stores a password of its own when the call is through. -/
def ownPassword (original : Option Connection) (password : Option String) : Bool :=
  match password with
  | some text => text ≠ ""
  | none => original.any fun conn => vault.connectionHasPassword conn.id

def moved (original : Option Connection) (conn : Connection) : Bool :=
  original.all fun before => vault.route before ≠ vault.route conn

/-- The part of the guard that is about a host that moves. -/
def guardMove (original conn : Connection) (password : Option String) : Except WriteError Unit :=
  if !moved vault (some original) conn then .ok ()
  else if password.isNone && vault.connectionHasPassword original.id then
    .error (.passwordStays original.label)
  else if hasTotpSecret vault original.id then .error (.totpStays original.label)
  else if (carrying vault original.id).isEmpty then .ok ()
  else .error (.hostsBehind original.label)

/-- The part of the guard that is about the identity's password. -/
def guardIdentity (original : Option Connection) (conn : Connection) (password : Option String) :
    Except WriteError Unit :=
  if ownPassword vault original password then .ok ()
  else
    match vault.effectiveIdentity conn with
    | none => .ok ()
    | some identity =>
      if !vault.identityHasPassword identity then .ok ()
      else if original.any (fun before => !moved vault original conn &&
            vault.effectiveIdentity before = some identity) ||
          vault.connections.rows.any (vouches vault conn identity) then .ok ()
      else .error (.identityStays identity)

def credentialGuard (original : Option Connection) (conn : Connection) (password : Option String) :
    Except WriteError Unit :=
  if moved vault original conn && vault.connections.rows.any fun host =>
      host.id ≠ conn.id && !host.mcpEnabled && endpoint host = endpoint conn then
    .error .keptOut
  else
    match original with
    | none => guardIdentity vault none conn password
    | some before =>
      guardMove vault before conn password >>= fun _ =>
        guardIdentity vault (some before) conn password

end

/-! ### The calls -/

/-- A row is written with the password as the call leaves it; its second factor stays. -/
def savedRow (vault : VaultStore) (conn : Connection) (password : Option String) : Connection :=
  { conn with
    password :=
      match password with
      | some text => if text = "" then none else some ⟨text, true⟩
      | none => (vault.connections.get? conn.id).bind Connection.password
    totpSecret := (vault.connections.get? conn.id).bind Connection.totpSecret }

def saveConnection (vault : VaultStore) (conn : Connection) (password : Option String) :
    VaultStore :=
  { vault with connections := vault.connections.insertOrReplace (savedRow vault conn password) }

def Connection.new (id : Uuid) (label hostname : String) : Connection where
  id := id
  label := label
  hostname := hostname
  port := 22
  isSsh := true
  mcpEnabled := true
  groupId := none
  keyId := none
  identityId := none
  jumpChain := []
  proxy := none
  proxyIdentityId := none
  password := none
  totpSecret := none

inductive Call
  | createHost (id : Uuid) (params : Params)
  | updateHost (id : Uuid) (params : Params)

/-- The row before the call, the row as the call's fields make it, and the password. -/
structure Write where
  original : Option Connection
  conn : Connection
  password : Option String

def handleCreateHost (vault : VaultStore) (id : Uuid) (params : Params) : Except WriteError Write :=
  if !vault.allowWrites then .error .writesOff
  else
    match strField params.label, strField params.hostname with
    | .set label, .set hostname =>
      if label = "" then .error (.empty "label")
      else do
        let host ← hostOnly reading hostname
        let (conn, password) ← applyFields reading vault (.new id label host) params
        return ⟨none, conn, password⟩
    | .set _, _ => .error (.missing "hostname")
    | _, _ => .error (.missing "label")

def handleUpdateHost (vault : VaultStore) (id : Uuid) (params : Params) : Except WriteError Write :=
  if !vault.allowWrites then .error .writesOff
  else
    match (vault.connections.get? id).filter fun conn => conn.mcpEnabled && conn.isSsh with
    | none => .error .hostNotFound
    | some original =>
      if !original.isSsh then .error .notSsh
      else do
        let (conn, password) ← applyFields reading vault original params
        return ⟨some original, conn, password⟩

def Call.apply (vault : VaultStore) : Call → Except WriteError Write
  | .createHost id params => handleCreateHost reading vault id params
  | .updateHost id params => handleUpdateHost reading vault id params

def Call.run (vault : VaultStore) (call : Call) : Except WriteError VaultStore := do
  let write ← call.apply reading vault
  credentialGuard vault write.original write.conn write.password
  return saveConnection vault write.conn write.password

/-- A call that is refused writes nothing. A new host has an id no host has. -/
def writing : Machine VaultStore Call where
  step vault call :=
    match call with
    | .createHost id _ =>
      if (vault.connections.get? id).isSome then none
      else some ((call.run reading vault).toOption.getD vault)
    | .updateHost _ _ => some ((call.run reading vault).toOption.getD vault)

/-! ### What is to hold -/

/-- No host of the vault is dialled with a secret of the start over a route that no host of the start
was dialled over with it. -/
def NeverStrays (start vault : VaultStore) : Prop :=
  ∀ conn ∈ vault.connections.rows, conn.mcpEnabled → conn.isSsh →
    ∀ secret ∈ vault.dialSecrets conn, ∃ other ∈ start.connections.rows,
      secret ∈ start.dialSecrets other ∧ start.route other = vault.route conn

/-- The identity the written host ends up with if it stores no password. -/
def identityAfter (vault : VaultStore) (conn : Connection) : Option Uuid :=
  vault.effectiveLogin conn conn.keyId.isSome

/-- A host that stores no password is dialled over the route with the identity's. -/
def Uses (vault : VaultStore) (identity : Uuid) (way : Route) (host : Connection) : Prop :=
  vault.connectionHasPassword host.id = false ∧ vault.effectiveIdentity host = some identity ∧
    vault.route host = way

/-- Where the call leaves a host without a password of its own and with an identity that stores one:
if the call takes a stored password away, or a host that stores its own is among those that vouch,
then some host that stores none is dialled over that route with the identity. -/
def Sound (vault : VaultStore) (call : Call) : Prop :=
  ∀ write ∈ (call.apply reading vault).toOption,
    ownPassword vault write.original write.password = false →
      ∀ identity ∈ identityAfter vault write.conn, vault.identityHasPassword identity →
        (vault.connectionHasPassword write.conn.id = true ∨
          ∃ host ∈ vault.connections.rows, vouches vault write.conn identity host ∧
            vault.connectionHasPassword host.id = true) →
        ∃ host ∈ vault.connections.rows, Uses vault identity (vault.route write.conn) host

/-! ### What a call may write -/

section

variable {reading} {vault : VaultStore}

/-- The fields of a call do not name another host, and leave its stored columns to the vault. -/
theorem applyFields_id {conn next : Connection} {params : Params} {password : Option String}
    (applied : applyFields reading vault conn params = .ok (next, password)) :
    next.id = conn.id := by
  unfold applyFields at applied
  obtain ⟨label, -, applied⟩ := bind_eq_ok.mp applied
  obtain ⟨hostname, -, applied⟩ := bind_eq_ok.mp applied
  obtain ⟨groupId, -, applied⟩ := bind_eq_ok.mp applied
  obtain ⟨keyId, -, applied⟩ := bind_eq_ok.mp applied
  obtain ⟨identityId, -, applied⟩ := bind_eq_ok.mp applied
  obtain ⟨jumpChain, -, applied⟩ := bind_eq_ok.mp applied
  split at applied
  · cases applied
  · cases applied
    rfl

variable {call : Call}

/-- A call writes the row it found, or a new one. -/
theorem original_of_apply {write : Write} (applied : call.apply reading vault = .ok write)
    (fresh : ∀ id params, call = .createHost id params → vault.connections.get? id = none) :
    vault.connections.get? write.conn.id = write.original := by
  cases call with
  | createHost id params =>
    have missing := fresh id params rfl
    change handleCreateHost reading vault id params = .ok write at applied
    unfold handleCreateHost at applied
    split at applied
    · cases applied
    · split at applied
      · split at applied
        · cases applied
        · obtain ⟨host, -, applied⟩ := bind_eq_ok.mp applied
          obtain ⟨⟨conn, password⟩, isConn, applied⟩ := bind_eq_ok.mp applied
          cases applied
          have same := applyFields_id isConn
          exact (congrArg vault.connections.get? same).trans missing
      · cases applied
      · cases applied
  | updateHost id params =>
    change handleUpdateHost reading vault id params = .ok write at applied
    unfold handleUpdateHost at applied
    split at applied
    · cases applied
    · split at applied
      · cases applied
      · rename_i original found
        split at applied
        · cases applied
        · obtain ⟨⟨conn, password⟩, isConn, applied⟩ := bind_eq_ok.mp applied
          cases applied
          have isRow := (Option.filter_eq_some_iff.mp found).1
          have same := applyFields_id isConn
          exact (congrArg vault.connections.get? (same.trans (Table.key_of_get? isRow))).trans isRow

/-! ### What the guard lets through -/

variable {original : Option Connection} {conn : Connection} {password : Option String}

theorem guards_of_ok (allowed : credentialGuard vault original conn password = .ok ()) :
    (∀ before ∈ original, guardMove vault before conn password = .ok ()) ∧
      guardIdentity vault original conn password = .ok () := by
  unfold credentialGuard at allowed
  split at allowed
  · cases allowed
  · cases original with
    | none => exact ⟨fun before isNone => absurd isNone (Option.not_mem_none before), allowed⟩
    | some before =>
      obtain ⟨⟨⟩, isMove, isIdentity⟩ := bind_eq_ok.mp allowed
      refine ⟨fun one isOne => ?_, isIdentity⟩
      rw [← Option.some.inj isOne]
      exact isMove

variable {before : Connection}

/-- A host that keeps a stored password, or stores a second factor, does not move. -/
theorem route_of_guardMove (allowed : guardMove vault before conn password = .ok ())
    (stays : password = none ∧ vault.connectionHasPassword before.id = true ∨
      hasTotpSecret vault before.id = true) :
    vault.route before = vault.route conn := by
  unfold guardMove at allowed
  split at allowed
  · rename_i notMoved
    exact not_not.mp (of_decide_eq_false ((Bool.not_eq_true' _).mp notMoved))
  · split at allowed
    · cases allowed
    · rename_i notStored
      split at allowed
      · cases allowed
      · rename_i noTotp
        rcases stays with ⟨isNone, stored⟩ | totp
        · rw [isNone, stored] at notStored
          exact absurd rfl notStored
        · exact absurd totp noTotp

variable {identity : Uuid}

/-- Whom the guard takes to use the identity over the route: the row itself, or another host. -/
theorem voucher_of_guardIdentity (allowed : guardIdentity vault original conn password = .ok ())
    (own : ownPassword vault original password = false)
    (isIdentity : vault.effectiveIdentity conn = some identity)
    (stored : vault.identityHasPassword identity = true) :
    (∃ before ∈ original, vault.route before = vault.route conn ∧
        vault.effectiveIdentity before = some identity) ∨
      ∃ host ∈ vault.connections.rows, vouches vault conn identity host = true := by
  unfold guardIdentity at allowed
  rw [own, isIdentity] at allowed
  dsimp only at allowed
  rw [stored] at allowed
  split at allowed
  · rename_i impossible
    cases impossible
  · split at allowed
    · rename_i impossible
      cases impossible
    · split at allowed
      · rename_i vouched
        rcases Bool.or_eq_true_iff.mp vouched with row | other
        · obtain ⟨before, isBefore, both⟩ := (Option.any_eq_true _ _).mp row
          obtain ⟨notMoved, same⟩ := Bool.and_eq_true_iff.mp both
          refine .inl ⟨before, isBefore, ?_, of_decide_eq_true same⟩
          rw [isBefore] at notMoved
          exact not_not.mp (of_decide_eq_false ((Bool.not_eq_true' _).mp notMoved))
        · obtain ⟨host, member, vouches⟩ := List.any_eq_true.mp other
          exact .inr ⟨host, member, vouches⟩
      · cases allowed

/-! ### What a write sends -/

theorem sameBeside_save (vault : VaultStore) (conn : Connection) (password : Option String) :
    SameBeside vault (saveConnection vault conn password) :=
  ⟨rfl, rfl, rfl⟩

theorem get?_save (vault : VaultStore) (conn : Connection) (password : Option String)
    (id : Uuid) : (saveConnection vault conn password).connections.get? id =
      if id = conn.id then some (savedRow vault conn password)
      else vault.connections.get? id :=
  Table.get?_insertOrReplace_of_null _ _ id rfl

variable {secret : Secret}

/-- A secret of a row that stays where it is was sent from there. -/
theorem sent_of_stays (found : vault.connections.get? conn.id = some before)
    (way : vault.route before = vault.route conn) (sent : secret ∈ vault.dialSecrets before) :
    ∃ other ∈ vault.connections.rows,
      secret ∈ vault.dialSecrets other ∧ vault.route other = vault.route conn :=
  ⟨before, Table.mem_of_get? found, sent, way⟩

/-- The identity's password goes where it went before. -/
theorem sent_of_identity (isOriginal : vault.connections.get? conn.id = original)
    (allowed : guardIdentity vault original conn password = .ok ())
    (own : ownPassword vault original password = false)
    (after : identityAfter vault conn = some identity)
    (stored : vault.identityHasPassword identity = true)
    (sound : (vault.connectionHasPassword conn.id = true ∨
        ∃ host ∈ vault.connections.rows, vouches vault conn identity host ∧
          vault.connectionHasPassword host.id = true) →
      ∃ host ∈ vault.connections.rows, Uses vault identity (vault.route conn) host) :
    ∃ other ∈ vault.connections.rows,
      .identityPassword identity ∈ vault.dialSecrets other ∧
        vault.route other = vault.route conn := by
  have ofUser : (∃ host ∈ vault.connections.rows, Uses vault identity (vault.route conn) host) →
      ∃ other ∈ vault.connections.rows, .identityPassword identity ∈ vault.dialSecrets other ∧
        vault.route other = vault.route conn := by
    rintro ⟨host, member, noOwn, uses, way⟩
    exact ⟨host, member, sentPassword_of_none noOwn uses stored, way⟩
  cases noOwn : vault.connectionHasPassword conn.id with
  | true => exact ofUser (sound (.inl noOwn))
  | false =>
    have isIdentity : vault.effectiveIdentity conn = some identity := by
      unfold effectiveIdentity
      rw [noOwn, Bool.or_false]
      exact after
    rcases voucher_of_guardIdentity allowed own isIdentity stored with
      ⟨before, isBefore, way, uses⟩ | ⟨host, member, vouched⟩
    · have found := isOriginal.trans isBefore
      have sameId : before.id = conn.id := Table.key_of_get? found
      exact sent_of_stays found way (sentPassword_of_none (sameId ▸ noOwn) uses stored)
    · cases hostOwn : vault.connectionHasPassword host.id with
      | true => exact ofUser (sound (.inr ⟨host, member, vouched, hostOwn⟩))
      | false =>
        unfold vouches at vouched
        obtain ⟨rest, uses⟩ := Bool.and_eq_true_iff.mp vouched
        obtain ⟨-, way⟩ := Bool.and_eq_true_iff.mp rest
        exact ofUser ⟨host, member, hostOwn, of_decide_eq_true uses, of_decide_eq_true way⟩

theorem totp_mem_dialSecrets (found : vault.connections.get? before.id = some before)
    (totp : hasTotpSecret vault before.id = true) :
    .totp before.id ∈ vault.dialSecrets before := by
  refine List.mem_append_right _ ?_
  unfold hasTotpSecret at totp
  rw [if_pos totp]
  exact List.mem_singleton.mpr rfl

/-- What the written host is dialled with went over its route before. -/
theorem sent_of_save (isOriginal : vault.connections.get? conn.id = original)
    (allowed : credentialGuard vault original conn password = .ok ())
    (sound : ownPassword vault original password = false →
      ∀ identity ∈ identityAfter vault conn, vault.identityHasPassword identity →
        (vault.connectionHasPassword conn.id = true ∨
          ∃ host ∈ vault.connections.rows, vouches vault conn identity host ∧
            vault.connectionHasPassword host.id = true) →
        ∃ host ∈ vault.connections.rows, Uses vault identity (vault.route conn) host)
    (sent : secret ∈ (saveConnection vault conn password).dialSecrets conn) :
    ∃ other ∈ vault.connections.rows,
      secret ∈ vault.dialSecrets other ∧ vault.route other = vault.route conn := by
  obtain ⟨moves, identities⟩ := guards_of_ok allowed
  have saved := get?_save vault conn password conn.id
  rw [if_pos rfl] at saved
  rcases List.mem_append.mp sent with isPassword | isTotp
  · have isSent := Option.mem_toList.mp isPassword
    change sentPassword _ conn = some secret at isSent
    unfold sentPassword at isSent
    rw [saved, Option.bind_some] at isSent
    cases column : (savedRow vault conn password).password with
    | some own =>
      simp only [column] at isSent
      split at isSent
      · cases isSent
      · rename_i notGiven
        cases isSent
        -- A password that no call gave is one the row had before, and the call keeps it.
        have kept : password = none := by
          cases password with
          | none => rfl
          | some text =>
            change (if text = "" then none else some (⟨text, true⟩ : Password)) = some own at column
            split at column
            · cases column
            · cases column
              exact absurd rfl notGiven
        subst kept
        obtain ⟨before, found, isOwn⟩ := Option.bind_eq_some_iff.mp column
        have sameId : before.id = conn.id := Table.key_of_get? found
        have stored : vault.connectionHasPassword before.id = true := by
          unfold connectionHasPassword
          rw [sameId, found]
          exact congrArg Option.isSome isOwn
        have way := route_of_guardMove (moves before (isOriginal.symm.trans found))
          (.inl ⟨rfl, stored⟩)
        refine sent_of_stays found way (List.mem_append_left _ (Option.mem_toList.mpr ?_))
        unfold sentPassword
        rw [sameId, found, Option.bind_some, isOwn]
        exact if_neg notGiven
    | none =>
      rw [column] at isSent
      obtain ⟨identity, isIdentity, rfl⟩ := Option.map_eq_some_iff.mp isSent
      obtain ⟨effective, stored⟩ := Option.filter_eq_some_iff.mp isIdentity
      have own : ownPassword vault original password = false := by
        cases password with
        | none =>
          change (vault.connections.get? conn.id).bind Connection.password = none at column
          cases original with
          | none => rfl
          | some before =>
            rw [isOriginal] at column
            have sameId : before.id = conn.id := Table.key_of_get? isOriginal
            change vault.connectionHasPassword before.id = false
            unfold connectionHasPassword
            rw [sameId, isOriginal]
            exact congrArg Option.isSome column
        | some text =>
          change (if text = "" then none else some (⟨text, true⟩ : Password)) = none at column
          split at column
          · rename_i isEmpty
            exact decide_eq_false (not_not.mpr isEmpty)
          · cases column
      have after : identityAfter vault conn = some identity := by
        have noOwn : (saveConnection vault conn password).connectionHasPassword conn.id = false := by
          unfold connectionHasPassword
          rw [saved]
          exact congrArg Option.isSome column
        unfold effectiveIdentity at effective
        rw [noOwn, Bool.or_false,
          effectiveLogin_of_same (sameBeside_save vault conn password)] at effective
        exact effective
      exact sent_of_identity isOriginal identities own after stored
        (sound own identity after stored)
  · split at isTotp
    · rename_i totp
      rw [List.mem_singleton.mp isTotp]
      rw [saved] at totp
      change ((vault.connections.get? conn.id).bind Connection.totpSecret).isSome at totp
      cases found : vault.connections.get? conn.id with
      | none =>
        rw [found] at totp
        cases totp
      | some before =>
        have sameId : before.id = conn.id := Table.key_of_get? found
        have stored : hasTotpSecret vault before.id = true := by
          unfold hasTotpSecret
          rw [sameId]
          exact totp
        have way := route_of_guardMove (moves before (isOriginal.symm.trans found)) (.inr stored)
        have sentBefore := totp_mem_dialSecrets (sameId ▸ found) stored
        rw [sameId] at sentBefore
        exact sent_of_stays found way sentBefore
    · cases isTotp

/-! ### Every sequence of calls -/

/-- What every sequence of sound calls keeps, of the hosts kept out of MCP too. -/
structure Confined (start vault : VaultStore) : Prop where
  sent : ∀ conn ∈ vault.connections.rows, ∀ secret ∈ vault.dialSecrets conn,
    ∃ other ∈ start.connections.rows,
      secret ∈ start.dialSecrets other ∧ start.route other = vault.route conn

variable {start : VaultStore}

theorem Confined.save (confined : Confined start vault)
    (sent : ∀ secret ∈ (saveConnection vault conn password).dialSecrets conn,
      ∃ other ∈ vault.connections.rows,
        secret ∈ vault.dialSecrets other ∧ vault.route other = vault.route conn) :
    Confined start (saveConnection vault conn password) where
  sent := by
    intro row member secret isSent
    have same := sameBeside_save vault conn password
    rw [route_of_same same]
    rcases (Table.mem_rows_insertOrReplace _ _ row).mp member with ⟨old, apart⟩ | rfl
    · have otherId : row.id ≠ conn.id := by
        intro sameId
        have displaced : Table.displaces Connection.id Table.noIndex
            (savedRow vault conn password) row = true :=
          Bool.or_eq_true_iff.mpr (.inl (decide_eq_true sameId))
        rw [displaced] at apart
        cases apart
      have unchanged := get?_save vault conn password row.id
      rw [if_neg otherId] at unchanged
      rw [dialSecrets_of_same same unchanged] at isSent
      exact confined.sent row old secret isSent
    · obtain ⟨other, isOther, otherSent, way⟩ := sent secret isSent
      obtain ⟨first, isFirst, firstSent, firstWay⟩ := confined.sent other isOther secret otherSent
      exact ⟨first, isFirst, firstSent, firstWay.trans way⟩

variable {next : VaultStore}

theorem Confined.run (confined : Confined start vault)
    (fresh : ∀ id params, call = .createHost id params → vault.connections.get? id = none)
    (sound : Sound reading vault call) (done : call.run reading vault = .ok next) :
    Confined start next := by
  obtain ⟨write, applied, done⟩ := bind_eq_ok.mp done
  obtain ⟨⟨⟩, allowed, done⟩ := bind_eq_ok.mp done
  cases done
  have isWrite : write ∈ (call.apply reading vault).toOption := by
    rw [applied]
    rfl
  exact confined.save fun secret sent =>
    sent_of_save (original_of_apply applied fresh) allowed (sound write isWrite) sent

theorem Confined.step (confined : Confined start vault) (sound : Sound reading vault call)
    (stepped : (writing reading).step vault call = some next) :
    Confined start next := by
  have written : (∀ id params, call = .createHost id params →
      vault.connections.get? id = none) →
        next = (call.run reading vault).toOption.getD vault → Confined start next := by
    intro fresh isNext
    cases done : call.run reading vault with
    | error error =>
      rw [done] at isNext
      exact isNext ▸ confined
    | ok after =>
      rw [done] at isNext
      exact isNext ▸ confined.run fresh sound done
  cases call with
  | createHost id params =>
    change (if _ then none else some _) = some next at stepped
    split at stepped
    · cases stepped
    · rename_i missing
      refine written (fun other _ same => ?_) (Option.some.inj stepped).symm
      cases same
      exact Option.isNone_iff_eq_none.mp (Option.isSome_eq_false_iff.mp (Bool.not_eq_true _ ▸ missing))
  | updateHost id params =>
    refine written (fun other _ same => ?_) (Option.some.inj stepped).symm
    cases same

end

/-! ### Two sequences of calls -/

instance (vault : VaultStore) (identity : Uuid) (way : Route) (host : Connection) :
    Decidable (Uses vault identity way host) :=
  inferInstanceAs (Decidable (vault.connectionHasPassword host.id = false ∧
    vault.effectiveIdentity host = some identity ∧ vault.route host = way))

instance (reading : Reading) (vault : VaultStore) (call : Call) :
    Decidable (Sound reading vault call) :=
  inferInstanceAs (Decidable (∀ write ∈ (call.apply reading vault).toOption,
    ownPassword vault write.original write.password = false →
      ∀ identity ∈ identityAfter vault write.conn, vault.identityHasPassword identity →
        (vault.connectionHasPassword write.conn.id = true ∨
          ∃ host ∈ vault.connections.rows, vouches vault write.conn identity host ∧
            vault.connectionHasPassword host.id = true) →
        ∃ host ∈ vault.connections.rows, Uses vault identity (vault.route write.conn) host))

def plainReading : Reading where
  parseUuid _ := none
  fromHostField text := some ⟨text, none, none, none⟩

def noParams : Params where
  label := .absent
  hostname := .absent
  port := none
  mcpEnabled := none
  group := .absent
  key := .absent
  identity := .absent
  jumpChain := .absent
  namesProxy := false
  password := .absent

/-- One identity with a password, and nobody who uses it. -/
def identityVault : VaultStore where
  allowWrites := true
  connections := Table.empty
  groups := []
  identities := [⟨1, "root", some "s3cret"⟩]
  keys := []
  proxyIdentities := []

def usingHost : Connection := { Connection.new 5 "web" "web" with identityId := some 1 }

/-- One host that is dialled with it. -/
def usedVault : VaultStore :=
  { identityVault with connections := identityVault.connections.insertOrReplace usingHost }

/-- A second host at the address of the first is given its identity, and then a password. -/
def besideCalls : List Call :=
  [.createHost 6 { noParams with
      label := .set "copy", hostname := .set "WEB", identity := .set "root" },
    .updateHost 6 { noParams with password := .set "own" }]

/-- A host is made with a password of its own and an identity, and then the password is cleared. -/
def clearingCalls : List Call :=
  [.createHost 6 { noParams with
      label := .set "bad", hostname := .set "bad", identity := .set "root",
      password := .set "own" },
    .updateHost 6 { noParams with password := .clear }]

end Oryxis.Writes

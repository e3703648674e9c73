/-
This file is what a host inherits from its folders, the nearest first.

The login that the nearest of them leaves a host with is the one a listing shows and the one a
dial uses: what is filled in is a name, and filled in twice it is the same.
-/

import Oryxis.Library.Outcome
import Oryxis.Mcp.Signatures

namespace Oryxis.Routes

open Library List

/-! ### The nearest folder -/

section

variable (identities : List Identity) (answers : Bool)

/-- The identity a folder gives a host that does not answer for itself. -/
def Group.identity (group : Group) : Option Uuid :=
  group.defaults.bind fun defaults => if answers then none
    else defaults.identityId.filter fun id => identities.any fun ident => ident.id = id

def Group.username (group : Group) : Option String :=
  group.defaults.bind fun defaults => nonEmpty defaults.username

def usernameOf (id : Uuid) : Option String :=
  (identities.find? fun ident => ident.id = id).bind fun ident => nonEmpty ident.username

theorem foldl_inheritLogin (chain : List Group) (login : EffectiveLogin) :
    chain.foldl (inheritLogin identities answers) login =
      ⟨login.username.or (chain.findSome? Group.username),
        login.identityId.or (chain.findSome? (Group.identity identities answers))⟩ := by
  induction chain generalizing login with
  | nil => simp
  | cons group chain inductionHypothesis =>
    have one : inheritLogin identities answers login group =
        ⟨login.username.or group.username,
          login.identityId.or (group.identity identities answers)⟩ := by
      unfold inheritLogin Group.username Group.identity
      cases group.defaults <;> simp
    rw [foldl_cons, inductionHypothesis, one, findSome?_cons, findSome?_cons]
    cases group.username <;> cases group.identity identities answers <;> simp

theorem effectiveLogin_eq (conn : Connection) (chain : List Group) :
    effectiveLogin conn chain identities answers =
      ⟨((nonEmpty conn.username).or (chain.findSome? Group.username)).or
        ((conn.identityId.or (chain.findSome? (Group.identity identities answers))).bind
          (usernameOf identities)),
        conn.identityId.or (chain.findSome? (Group.identity identities answers))⟩ := by
  rw [effectiveLogin, foldl_inheritLogin]
  rfl

end

theorem isEmpty_of_mem_nonEmpty {text : Option String} {given : String}
    (member : given ∈ nonEmpty text) : given.isEmpty = false := by
  simpa using (Option.filter_eq_some_iff.mp member).2

/-- What is filled in is a name. -/
theorem nonEmpty_filled {text folder other : Option String}
    (named : ∀ given ∈ folder.or other, given.isEmpty = false) :
    nonEmpty (if (text.getD "").isEmpty then ((nonEmpty text).or folder).or other else text) =
      ((nonEmpty text).or folder).or other := by
  have given_eq (given : String) :
      nonEmpty (some given) = if given.isEmpty then none else some given := by
    simp [nonEmpty, Option.filter_some]
  rw [Option.or_assoc]
  generalize folder.or other = rest at named
  have isRest : nonEmpty rest = rest := by
    cases rest with
    | none => rfl
    | some given => rw [given_eq, named given rfl, if_neg Bool.false_ne_true]
  cases text with
  | none => exact isRest
  | some given =>
    rw [Option.getD_some, given_eq]
    split_ifs with empty
    · exact isRest
    · rw [given_eq, if_neg empty]
      rfl

theorem isEmpty_inherited {identities : List Identity} {chain : List Group} {identity : Option Uuid}
    {given : String}
    (member : given ∈ (chain.findSome? Group.username).or (identity.bind (usernameOf identities))) :
    given.isEmpty = false := by
  rcases Option.or_eq_some_iff.mp member with folder | ⟨-, other⟩
  · obtain ⟨group, -, isGiven⟩ := exists_of_findSome?_eq_some folder
    obtain ⟨defaults, -, isName⟩ := Option.bind_eq_some_iff.mp isGiven
    exact isEmpty_of_mem_nonEmpty isName
  · obtain ⟨id, -, isGiven⟩ := Option.bind_eq_some_iff.mp other
    obtain ⟨ident, -, isName⟩ := Option.bind_eq_some_iff.mp isGiven
    exact isEmpty_of_mem_nonEmpty isName

/-! ### Main results -/

/-- The folders of a host. -/
def folders (groups : List Group) (conn : Connection) : List Group :=
  (conn.groupId.map (ancestry groups)).getD []

def VaultStore.answers (vault : VaultStore) (conn : Connection) : Bool :=
  conn.keyId.isSome || vault.connectionHasPassword conn.id

/-- The host's own login counts before that of the nearest folder which gives one, and the name of
the identity last; this is what a listing shows and what a dial uses. -/
theorem login_of_applyEffective {vault : VaultStore} {groups : List Group}
    {identities : List Identity} {conn : Connection} {effective : VaultStore.EffectiveConfig}
    (resolved : vault.resolveEffective conn groups identities = .ok effective) :
    effective.login.identityId = conn.identityId.or
        ((folders groups conn).findSome? (Group.identity identities (vault.answers conn))) ∧
      effective.login.username = ((nonEmpty conn.username).or
        ((folders groups conn).findSome? Group.username)).or
          (effective.login.identityId.bind (usernameOf identities)) ∧
      nonEmpty (vault.applyEffective groups identities conn).username = effective.login.username ∧
      (vault.applyEffective groups identities conn).identityId = effective.login.identityId ∧
      effectiveLogin (vault.applyEffective groups identities conn) (folders groups conn) identities
        (vault.answers conn) = effective.login := by
  have login : effective.login =
      effectiveLogin conn (folders groups conn) identities (vault.answers conn) := by
    obtain ⟨_, -, inherited⟩ := bind_eq_ok.mp resolved
    obtain ⟨_, -, isEffective⟩ := bind_eq_ok.mp inherited
    cases isEffective
    rfl
  rw [effectiveLogin_eq] at login
  rw [effectiveLogin_eq, VaultStore.applyEffective, resolved]
  dsimp only
  rw [login]
  generalize folders groups conn = chain
  generalize chain.findSome? (Group.identity identities (vault.answers conn)) = inherited
  dsimp only
  have once : conn.identityId.or (conn.identityId.or inherited) = conn.identityId.or inherited := by
    rw [← Option.or_assoc, Option.or_self]
  have twice : (conn.identityId.or inherited).or inherited = conn.identityId.or inherited := by
    rw [Option.or_assoc, Option.or_self]
  rw [once, twice, nonEmpty_filled fun _ => isEmpty_inherited]
  refine ⟨rfl, rfl, rfl, rfl, congrArg (EffectiveLogin.mk · _) ?_⟩
  -- Whichever of the three names comes first comes first again.
  cases nonEmpty conn.username <;> cases chain.findSome? Group.username <;> simp

def deployed : Connection :=
  { DialPlan.sampleHost 1 "db" [] none with username := some "", groupId := some 7 }

theorem login_deployed : ∃ effective : VaultStore.EffectiveConfig,
    effective.login.username = some "deploy" ∧
      nonEmpty ((DialPlan.sampleVault "proxy").applyEffective
        [⟨7, none, some ⟨some "deploy", none, none⟩⟩] [] deployed).username =
          effective.login.username :=
  ⟨_, rfl, (login_of_applyEffective rfl).2.2.1⟩

end Oryxis.Routes

/-
This file says when two plans for one host have one signature, and so when a connection that was
made for one is handed to the other.

What a signature is written from can be read back from the written bytes, so two signatures agree
exactly when everything they were written from does. The target's address, login and proxy, the
ids of the route and the pins of every endpoint are written; where a hop is reached, and the proxy
in front of the first one beyond the approval of its command line, are not.
-/

import Oryxis.Mcp.DialPlan

namespace Oryxis.Routes

open Library List

/-! ### Written values -/

theorem AuthMethod.debug_injective : Function.Injective AuthMethod.debug := by
  intro first second
  cases first <;> cases second <;> decide

theorem AddressFamily.debug_injective : Function.Injective AddressFamily.debug := by
  intro first second
  cases first <;> cases second <;> decide

theorem prefixFree_boolCode : PrefixFree (fun _ => True) boolCode :=
  prefixFree_of_length (fun _ => rfl : ∀ value, (boolCode value).length = 1)
    fun {first second} _ _ same => by
      cases first <;> cases second <;> first | rfl | exact absurd same (by decide)

theorem prefixFree_portCode : PrefixFree (fun _ => True) portCode :=
  prefixFree_of_length (fun port => length_toLe 2 port.toNat) fun {first second} _ _ same =>
    UInt16.toNat_inj.mp (toLe_inj first.toNat_lt second.toNat_lt same)

theorem prefixFree_uuidCode : PrefixFree (fun _ => True) uuidCode := by
  have fixed (id : Uuid) : (uuidCode id).length = 8 + 16 := by
    rw [uuidCode, length_append, length_toLe, length_toBe]
  refine prefixFree_of_length fixed fun {first second} _ _ same => ?_
  have numbers := congrArg fromBe (append_cancel_left same)
  rw [fromBe_toBe first.isLt, fromBe_toBe second.isLt] at numbers
  exact BitVec.eq_of_toNat_eq numbers

theorem prefixFree_names :
    PrefixFree (fun names : List String => names.length < 256 ^ 8) (countedCode textCode) :=
  prefixFree_textCode.counted.weaken fun _ fits => ⟨fits, fun _ _ => trivial⟩

theorem prefixFree_pinCode : PrefixFree (fun _ => True) pinCode :=
  (prefixFree_textCode.pair prefixFree_textCode).weaken fun _ _ => ⟨trivial, trivial⟩

/-! ### What is hashed of a host -/

/-- A proxy as its JSON has it. -/
def ProxyConfig.serialized (proxy : ProxyConfig) : ProxyConfig := { proxy with password := none }

/-- The columns of a host that its signature is written from. -/
def Connection.dialled (conn : Connection) : Connection :=
  { conn with
    id := 0
    isSsh := true
    mcpEnabled := true
    groupId := none
    proxy := conn.proxy.map ProxyConfig.serialized }

/-- No list has more entries than a machine word counts. -/
structure Connection.Fits (conn : Connection) : Prop where
  jumpChain : conn.jumpChain.length < 256 ^ 8
  ciphers : ∀ names ∈ conn.ciphers, names.length < 256 ^ 8
  kex : ∀ names ∈ conn.kex, names.length < 256 ^ 8
  macs : ∀ names ∈ conn.macs, names.length < 256 ^ 8
  hostKeyAlgorithms : ∀ names ∈ conn.hostKeyAlgorithms, names.length < 256 ^ 8

/-- The hash takes no two sequences of bytes to one, written to another hash it can be told from
what follows, and the JSON of two proxies is the same exactly if they are the same but for their
passwords, which are not serialized. -/
structure Crates.Faithful (crates : Crates) : Prop where
  finish : Function.Injective crates.finish
  writeDigest : PrefixFree (fun _ => True) crates.writeDigest
  proxyJson : ∀ first second : Option ProxyConfig,
    crates.proxyJson first = crates.proxyJson second ↔
      first.map ProxyConfig.serialized = second.map ProxyConfig.serialized

variable {crates : Crates}

theorem dialled_eq_of_dialBytes (faithful : crates.Faithful) {conn other : Connection}
    (fits : conn.Fits) (fits' : other.Fits)
    (same : dialBytes crates conn = dialBytes crates other) : conn.dialled = other.dialled := by
  have text {first second : String} {behind after : List UInt8}
      (same : textCode first ++ behind = textCode second ++ after) :=
    prefixFree_textCode trivial trivial same
  have text? {first second : Option String} {behind after : List UInt8}
      (same : optionCode textCode first ++ behind = optionCode textCode second ++ after) :=
    prefixFree_textCode.option (fun _ _ => trivial) (fun _ _ => trivial) same
  have uuid? {first second : Option Uuid} {behind after : List UInt8}
      (same : optionCode uuidCode first ++ behind = optionCode uuidCode second ++ after) :=
    prefixFree_uuidCode.option (fun _ _ => trivial) (fun _ _ => trivial) same
  unfold dialBytes at same
  obtain ⟨hostname, same⟩ := text same
  obtain ⟨port, same⟩ := prefixFree_portCode trivial trivial same
  obtain ⟨username, same⟩ := text? same
  obtain ⟨authMethod, same⟩ := text same
  obtain ⟨keyId, same⟩ := uuid? same
  obtain ⟨identityId, same⟩ := uuid? same
  obtain ⟨useDiskKey, same⟩ := prefixFree_boolCode trivial trivial same
  obtain ⟨identityFile, same⟩ := text? same
  obtain ⟨jumpChain, same⟩ := prefixFree_uuidCode.counted ⟨fits.jumpChain, fun _ _ => trivial⟩
    ⟨fits'.jumpChain, fun _ _ => trivial⟩ same
  obtain ⟨proxyIdentityId, same⟩ := uuid? same
  obtain ⟨proxy, same⟩ := text same
  obtain ⟨addressFamily, same⟩ := text same
  obtain ⟨ciphers, same⟩ := prefixFree_names.option fits.ciphers fits'.ciphers same
  obtain ⟨kex, same⟩ := prefixFree_names.option fits.kex fits'.kex same
  obtain ⟨macs, same⟩ := prefixFree_names.option fits.macs fits'.macs same
  have hostKeyAlgorithms := prefixFree_names.option.injective fits.hostKeyAlgorithms
    fits'.hostKeyAlgorithms same
  have method := AuthMethod.debug_injective authMethod
  have family := AddressFamily.debug_injective addressFamily
  have proxies := (faithful.proxyJson _ _).mp proxy
  unfold Connection.dialled
  rw [hostname, port, username, method, keyId, identityId, useDiskKey, identityFile, jumpChain,
    proxyIdentityId, proxies, family, ciphers, kex, macs, hostKeyAlgorithms]

theorem dialBytes_eq_of_dialled (faithful : crates.Faithful) {conn other : Connection}
    (same : conn.dialled = other.dialled) : dialBytes crates conn = dialBytes crates other := by
  have column {Column : Type} (view : Connection → Column) := congrArg view same
  have proxy := (faithful.proxyJson conn.proxy other.proxy).mpr (column Connection.proxy)
  have hostname : conn.hostname = other.hostname := column Connection.hostname
  have port : conn.port = other.port := column Connection.port
  have username : conn.username = other.username := column Connection.username
  have authMethod : conn.authMethod = other.authMethod := column Connection.authMethod
  have keyId : conn.keyId = other.keyId := column Connection.keyId
  have identityId : conn.identityId = other.identityId := column Connection.identityId
  have useDiskKey : conn.useDiskKey = other.useDiskKey := column Connection.useDiskKey
  have identityFile : conn.identityFile = other.identityFile := column Connection.identityFile
  have jumpChain : conn.jumpChain = other.jumpChain := column Connection.jumpChain
  have proxyIdentityId : conn.proxyIdentityId = other.proxyIdentityId :=
    column Connection.proxyIdentityId
  have addressFamily : conn.addressFamily = other.addressFamily := column Connection.addressFamily
  have ciphers : conn.ciphers = other.ciphers := column Connection.ciphers
  have kex : conn.kex = other.kex := column Connection.kex
  have macs : conn.macs = other.macs := column Connection.macs
  have hostKeyAlgorithms : conn.hostKeyAlgorithms = other.hostKeyAlgorithms :=
    column Connection.hostKeyAlgorithms
  unfold dialBytes
  rw [hostname, port, username, authMethod, keyId, identityId, useDiskKey, identityFile, jumpChain,
    proxyIdentityId, proxy, addressFamily, ciphers, kex, macs, hostKeyAlgorithms]

/-! ### Pins -/

theorem pinLe_trans (first second third : Pin) (before : pinLe first second = true)
    (after : pinLe second third = true) : pinLe first third = true := by
  unfold pinLe at before after ⊢
  split at before
  · rename_i same
    rw [same]
    split at after
    · rename_i same'
      rw [if_pos same']
      exact decide_eq_true (String.le_trans (of_decide_eq_true before) (of_decide_eq_true after))
    · rename_i differs
      rw [if_neg differs]
      exact after
  · rename_i differs
    split at after
    · rename_i same'
      rw [← same', if_neg differs]
      exact before
    · rename_i differs'
      have below := of_decide_eq_true before
      have above := of_decide_eq_true after
      have apart : first.1 ≠ third.1 := by
        intro same
        exact differs (String.le_antisymm below (same ▸ above))
      rw [if_neg apart]
      exact decide_eq_true (String.le_trans below above)

theorem pinLe_total (first second : Pin) : (pinLe first second || pinLe second first) = true := by
  unfold pinLe
  by_cases same : first.1 = second.1
  · rw [if_pos same, if_pos same.symm]
    rcases String.le_total first.2 second.2 with le | le <;> simp [le]
  · rw [if_neg same, if_neg (Ne.symm same)]
    rcases String.le_total first.1 second.1 with le | le <;> simp [le]

theorem pinLe_antisymm {first second : Pin} (before : pinLe first second = true)
    (after : pinLe second first = true) : first = second := by
  unfold pinLe at before after
  by_cases same : first.1 = second.1
  · rw [if_pos same] at before
    rw [if_pos same.symm] at after
    exact Prod.ext same
      (String.le_antisymm (of_decide_eq_true before) (of_decide_eq_true after))
  · rw [if_neg same] at before
    rw [if_neg (Ne.symm same)] at after
    exact absurd (String.le_antisymm (of_decide_eq_true before) (of_decide_eq_true after)) same

/-- Sorted, two lists of pins are one exactly if they have the same entries. -/
theorem mergeSort_pinLe_eq_iff {first second : List Pin} :
    first.mergeSort pinLe = second.mergeSort pinLe ↔ first.Perm second := by
  constructor
  · intro same
    exact (mergeSort_perm first pinLe).symm.trans
      (same ▸ mergeSort_perm second pinLe)
  · intro perm
    have sorted := pairwise_mergeSort pinLe_trans pinLe_total first
    have sorted' := pairwise_mergeSort pinLe_trans pinLe_total second
    refine Perm.eq_of_pairwise (fun _ _ _ _ before after => ?_) sorted sorted' ?_
    · exact pinLe_antisymm before after
    · exact (mergeSort_perm first pinLe).trans
        (perm.trans (mergeSort_perm second pinLe).symm)

theorem prefixFree_countedPins :
    PrefixFree (fun pins : List Pin => pins.length < 256 ^ 8) (countedCode pinCode) :=
  prefixFree_pinCode.counted.weaken fun _ fits => ⟨fits, fun _ _ => trivial⟩

theorem length_pinsOf_le (pins : List KnownHost) (endpoint : Endpoint) :
    (pinsOf pins endpoint).length ≤ pins.length := by
  rw [pinsOf, length_map]
  exact length_filter_le _ _

/-! ### What is hashed of a route -/

/-- All that `reuse_signature` is given. -/
structure Hashed where
  conn : Connection
  hops : List Endpoint
  pins : List KnownHost
  trustedProxyCommands : List String
  firstHopProxy : Option ProxyConfig

namespace Hashed

def target (hashed : Hashed) : Endpoint := (hashed.conn.hostname, hashed.conn.port)

def bytes (crates : Crates) (hashed : Hashed) : List UInt8 :=
  reuseBytes crates hashed.conn hashed.hops hashed.pins hashed.trustedProxyCommands
    hashed.firstHopProxy

def approval (crates : Crates) (hashed : Hashed) (proxy : Option ProxyConfig) : Option Bool :=
  commandApproval crates hashed.trustedProxyCommands proxy

structure Fits (hashed : Hashed) : Prop where
  conn : hashed.conn.Fits
  pins : hashed.pins.length < 256 ^ 8

/-- What a signature is written from is the same: the columns of the target, the pins of the target
and hop by hop those of the hops, in any order, and the approvals of the command lines in front of
the target and of the first hop. -/
structure SameRead (crates : Crates) (first second : Hashed) : Prop where
  conn : first.conn.dialled = second.conn.dialled
  targetPins : (pinsOf first.pins first.target).Perm (pinsOf second.pins second.target)
  hopPins : List.Forall₂ (fun hop hop' => (pinsOf first.pins hop).Perm (pinsOf second.pins hop'))
    first.hops second.hops
  approval : first.approval crates first.conn.proxy = second.approval crates second.conn.proxy
  firstHopApproval :
    first.approval crates first.firstHopProxy = second.approval crates second.firstHopProxy

theorem length_optionCode_boolCode (approval : Option Bool) :
    8 ≤ (optionCode boolCode approval).length ∧ (optionCode boolCode approval).length ≤ 9 := by
  cases approval with
  | none => exact ⟨by decide, by decide⟩
  | some value => exact ⟨by cases value <;> decide, by cases value <;> decide⟩

/-- The pins of all hops as they are written. -/
theorem flatMap_pinsCode (pins : List KnownHost) (hops : List Endpoint) :
    (hops.map (pinsOf pins)).flatMap pinsCode
      = (hops.map fun hop => (pinsOf pins hop).mergeSort pinLe).flatMap (countedCode pinCode) := by
  rw [flatMap_map, flatMap_map]
  rfl

theorem map_mergeSort_eq_iff {pins pins' : List KnownHost} {hops hops' : List Endpoint} :
    (hops.map fun hop => (pinsOf pins hop).mergeSort pinLe)
        = (hops'.map fun hop => (pinsOf pins' hop).mergeSort pinLe) ↔
      List.Forall₂ (fun hop hop' => (pinsOf pins hop).Perm (pinsOf pins' hop')) hops hops' := by
  rw [← forall₂_eq_eq_eq, forall₂_map_left_iff, forall₂_map_right_iff]
  simp only [mergeSort_pinLe_eq_iff]

theorem sameRead_of_bytes (faithful : crates.Faithful) {first second : Hashed} (fits : first.Fits)
    (fits' : second.Fits) (same : first.bytes crates = second.bytes crates) :
    SameRead crates first second := by
  have fit (hop : Endpoint) : ((pinsOf first.pins hop).mergeSort pinLe).length < 256 ^ 8 := by
    rw [length_mergeSort]
    exact Nat.lt_of_le_of_lt (length_pinsOf_le _ _) fits.pins
  have fit' (hop : Endpoint) : ((pinsOf second.pins hop).mergeSort pinLe).length < 256 ^ 8 := by
    rw [length_mergeSort]
    exact Nat.lt_of_le_of_lt (length_pinsOf_le _ _) fits'.pins
  unfold bytes reuseBytes pinsCode at same
  obtain ⟨signature, same⟩ := faithful.writeDigest trivial trivial same
  have conn := dialled_eq_of_dialBytes faithful fits.conn fits'.conn (faithful.finish signature)
  obtain ⟨targetPins, same⟩ := prefixFree_countedPins (fit _) (fit' _) same
  have hopCodes := flatMap_pinsCode first.pins first.hops
  have hopCodes' := flatMap_pinsCode second.pins second.hops
  unfold pinsCode at hopCodes hopCodes'
  rw [hopCodes, hopCodes'] at same
  have long (pins : List Pin) : 8 ≤ (countedCode pinCode pins).length := by
    rw [countedCode, length_append, length_toLe]
    omega
  obtain ⟨own, own'⟩ := length_optionCode_boolCode (first.approval crates first.conn.proxy)
  obtain ⟨hop, hop'⟩ := length_optionCode_boolCode (first.approval crates first.firstHopProxy)
  obtain ⟨other, other'⟩ := length_optionCode_boolCode (second.approval crates second.conn.proxy)
  obtain ⟨end_, end'⟩ := length_optionCode_boolCode (second.approval crates second.firstHopProxy)
  obtain ⟨hopPins, same⟩ := prefixFree_countedPins.flatMap_of_ends long
    (by rw [length_append, length_append]; unfold approval at *; omega)
    (by rw [length_append, length_append]; unfold approval at *; omega)
    (forall_mem_map.mpr fun hop _ => fit hop) (forall_mem_map.mpr fun hop _ => fit' hop)
    same
  obtain ⟨approval, same⟩ := prefixFree_boolCode.option (fun _ _ => trivial) (fun _ _ => trivial)
    same
  have firstHopApproval := prefixFree_boolCode.option.injective (fun _ _ => trivial)
    (fun _ _ => trivial) same
  exact ⟨conn, mergeSort_pinLe_eq_iff.mp targetPins, map_mergeSort_eq_iff.mp hopPins, approval,
    firstHopApproval⟩

theorem bytes_of_sameRead (faithful : crates.Faithful) {first second : Hashed}
    (same : SameRead crates first second) : first.bytes crates = second.bytes crates := by
  have conn : dialSignature crates first.conn = dialSignature crates second.conn :=
    congrArg crates.finish (dialBytes_eq_of_dialled faithful same.conn)
  have targetPins : pinsCode (pinsOf first.pins (first.conn.hostname, first.conn.port))
      = pinsCode (pinsOf second.pins (second.conn.hostname, second.conn.port)) :=
    congrArg (countedCode pinCode) (mergeSort_pinLe_eq_iff.mpr same.targetPins)
  have hopPins := map_mergeSort_eq_iff.mpr same.hopPins
  have approval := same.approval
  have firstHopApproval := same.firstHopApproval
  unfold Hashed.approval at approval firstHopApproval
  unfold bytes reuseBytes
  rw [conn, targetPins, flatMap_pinsCode, flatMap_pinsCode, hopPins, approval, firstHopApproval]

end Hashed

/-! ### Plans -/

/-- Who a dial authenticates as. -/
structure Login where
  username : Option String
  authMethod : AuthMethod
  keyId : Option Uuid
  identityId : Option Uuid
  useDiskKey : Bool
  identityFile : Option String

namespace DialPlan

variable {Digest : Type}

def target (plan : DialPlan Digest) : Endpoint := (plan.authConn.hostname, plan.authConn.port)

/-- Where the hops of the route are reached, in order. -/
def hops (plan : DialPlan Digest) : List Endpoint := plan.endpoints.dropLast

def login (plan : DialPlan Digest) : Login where
  username := plan.authConn.username
  authMethod := plan.authConn.authMethod
  keyId := plan.authConn.keyId
  identityId := plan.authConn.identityId
  useDiskKey := plan.authConn.useDiskKey
  identityFile := plan.authConn.identityFile

/-- The proxy in front of the first hop, if there is one. -/
def firstHop (plan : DialPlan Digest) : Option ProxyConfig :=
  firstHopProxy plan.authConn.jumpChain plan.resolver

/-- The proxy that is dialled through: the target's own without a route, the first hop's with
one. -/
def dialledProxy (plan : DialPlan Digest) : Option ProxyConfig :=
  if plan.authConn.jumpChain.isEmpty then plan.authConn.proxy else plan.firstHop

/-- What `reuse_signature` is given for a plan. -/
def hashed (vault : VaultStore) (plan : DialPlan Digest) : Hashed where
  conn := plan.authConn
  hops := plan.hops
  pins := orEmpty vault.listKnownHosts
  trustedProxyCommands := orEmpty vault.listTrustedProxyCommands
  firstHopProxy := plan.firstHop

/-- Two plans of two states of a vault dial the same route: one target and one login, the same
hops in one order at the same addresses, the same pins of each of these, and one proxy, whose
password is no part of the route. -/
structure SameRoute (vault vault' : VaultStore) (plan plan' : DialPlan Digest) : Prop where
  target : plan.target = plan'.target
  login : plan.login = plan'.login
  hops : plan.hops = plan'.hops
  order : plan.authConn.jumpChain = plan'.authConn.jumpChain
  pins : ∀ endpoint ∈ plan.endpoints, ∀ pin,
    pin ∈ pinsOf (plan.hashed vault).pins endpoint ↔
      pin ∈ pinsOf (plan'.hashed vault').pins endpoint
  proxy : plan.dialledProxy.map ProxyConfig.serialized
    = plan'.dialledProxy.map ProxyConfig.serialized

theorem spec_of_resolveDialPlan {vault : VaultStore} {id : Uuid} {plan : DialPlan crates.Digest}
    (resolves : resolveDialPlan crates vault id = .ok plan) :
    plan.endpoints = plan.hops ++ [plan.target] ∧
      plan.signature = crates.finish ((plan.hashed vault).bytes crates) := by
  unfold resolveDialPlan at resolves
  cases row : listed vault.listMcpConnections id with
  | error error =>
    rw [row] at resolves
    cases resolves
  | ok conn =>
    rw [row] at resolves
    cases resolves
    constructor
    · unfold hops target
      rw [dropLast_concat]
    · unfold hashed hops
      rw [dropLast_concat]
      rfl

theorem signature_eq_iff (faithful : crates.Faithful) {vault vault' : VaultStore} {id : Uuid}
    {plan plan' : DialPlan crates.Digest} (resolves : resolveDialPlan crates vault id = .ok plan)
    (resolves' : resolveDialPlan crates vault' id = .ok plan')
    (fits : (plan.hashed vault).Fits) (fits' : (plan'.hashed vault').Fits) :
    plan.signature = plan'.signature ↔
      Hashed.SameRead crates (plan.hashed vault) (plan'.hashed vault') := by
  rw [(spec_of_resolveDialPlan resolves).2, (spec_of_resolveDialPlan resolves').2,
    faithful.finish.eq_iff]
  exact ⟨Hashed.sameRead_of_bytes faithful fits fits', Hashed.bytes_of_sameRead faithful⟩

/-- Plans that agree in what is read agree in the route, once the hops are reached at the same
addresses and there is one proxy in front of the first. -/
theorem sameRoute_of_sameRead {vault vault' : VaultStore} {id : Uuid}
    {plan plan' : DialPlan crates.Digest} (resolves : resolveDialPlan crates vault id = .ok plan)
    (same : Hashed.SameRead crates (plan.hashed vault) (plan'.hashed vault'))
    (hops : plan.hops = plan'.hops)
    (firstHop : plan.firstHop.map ProxyConfig.serialized
      = plan'.firstHop.map ProxyConfig.serialized) :
    SameRoute vault vault' plan plan' := by
  have column {Column : Type} (view : Connection → Column) := congrArg view same.conn
  have target : plan.target = plan'.target :=
    Prod.ext (column Connection.hostname) (column Connection.port)
  have order : plan.authConn.jumpChain = plan'.authConn.jumpChain := column Connection.jumpChain
  have login : plan.login = plan'.login := by
    unfold DialPlan.login
    rw [Login.mk.injEq]
    exact ⟨column Connection.username, column Connection.authMethod, column Connection.keyId,
      column Connection.identityId, column Connection.useDiskKey, column Connection.identityFile⟩
  refine ⟨target, login, hops, order, ?_, ?_⟩
  · intro endpoint member pin
    rw [(spec_of_resolveDialPlan resolves).1] at member
    rcases mem_append.mp member with isHop | isTarget
    · have hopPins := same.hopPins
      have hops' : (plan'.hashed vault').hops = (plan.hashed vault).hops := hops.symm
      rw [hops', forall₂_same] at hopPins
      exact (hopPins endpoint isHop).mem_iff
    · rw [mem_singleton.mp isTarget]
      have targetPins := same.targetPins
      have target' : (plan'.hashed vault').target = plan.target := target.symm
      rw [target'] at targetPins
      exact targetPins.mem_iff
  · unfold dialledProxy
    rw [order]
    split
    · exact column Connection.proxy
    · exact firstHop

/-- That plans of one host which differ in the route differ in their signatures holds of a pair of
plans exactly if, where they agree in all a signature is written from, their hops are reached at
the same addresses and the first one through the same proxy. -/
theorem signatures_differ_iff (faithful : crates.Faithful) {vault vault' : VaultStore} {id : Uuid}
    {plan plan' : DialPlan crates.Digest} (resolves : resolveDialPlan crates vault id = .ok plan)
    (resolves' : resolveDialPlan crates vault' id = .ok plan')
    (fits : (plan.hashed vault).Fits) (fits' : (plan'.hashed vault').Fits) :
    (¬ SameRoute vault vault' plan plan' → plan.signature ≠ plan'.signature) ↔
      (Hashed.SameRead crates (plan.hashed vault) (plan'.hashed vault') →
        plan.hops = plan'.hops ∧
          plan.firstHop.map ProxyConfig.serialized = plan'.firstHop.map ProxyConfig.serialized) := by
  have signature := signature_eq_iff faithful resolves resolves' fits fits'
  constructor
  · intro differ same
    have route : SameRoute vault vault' plan plan' := by
      by_contra other
      exact differ other (signature.mpr same)
    refine ⟨route.hops, ?_⟩
    have proxy := route.proxy
    have order := route.order
    unfold dialledProxy at proxy
    cases chain : plan'.authConn.jumpChain with
    | nil =>
      unfold firstHop firstHopProxy
      rw [order, chain]
      rfl
    | cons first rest =>
      rw [order, chain] at proxy
      exact proxy
  · intro reached other same
    obtain ⟨hops, firstHop⟩ := reached (signature.mp same)
    exact other (sameRoute_of_sameRead resolves (signature.mp same) hops firstHop)

/-! ### A route that changes unseen -/

/-- The hash as the bytes themselves, with every byte marked where they are written to another. -/
def markedBytes (bytes : List UInt8) : List UInt8 := bytes.flatMap (fun byte => [1, byte]) ++ [0]

theorem prefixFree_markedBytes : PrefixFree (fun _ => True) markedBytes := by
  intro first
  induction first with
  | nil =>
    intro second behind after _ _ same
    cases second with
    | nil => exact ⟨rfl, (cons.inj same).2⟩
    | cons => exact absurd (cons.inj same).1 (by decide)
  | cons byte first ih =>
    intro second behind after _ _ same
    cases second with
    | nil => exact absurd (cons.inj same).1 (by decide)
    | cons other second =>
      obtain ⟨here, others⟩ := cons.inj (cons.inj same).2
      obtain ⟨rfl, rest⟩ := ih trivial trivial others
      exact ⟨by rw [here], rest⟩

def proxyTypeCode : ProxyType → List UInt8
  | .socks5 => [0]
  | .socks4 => [1]
  | .http => [2]
  | .command line => 3 :: textCode line

theorem prefixFree_proxyTypeCode : PrefixFree (fun _ => True) proxyTypeCode := by
  intro first second behind after _ _ same
  cases first with
  | command line =>
    cases second with
    | command other =>
      obtain ⟨rfl, rest⟩ := prefixFree_textCode trivial trivial (cons.inj same).2
      exact ⟨rfl, rest⟩
    | _ => exact absurd (cons.inj same).1 (by decide)
  | _ =>
    cases second with
    | command other => exact absurd (cons.inj same).1 (by decide)
    | _ =>
      first
      | exact ⟨rfl, (cons.inj same).2⟩
      | exact absurd (cons.inj same).1 (by decide)

def proxyCode (proxy : ProxyConfig) : List UInt8 :=
  proxyTypeCode proxy.proxyType ++ (textCode proxy.host ++ (portCode proxy.port ++
    optionCode textCode proxy.username))

theorem proxyCode_eq_iff {first second : ProxyConfig} :
    proxyCode first = proxyCode second ↔ first.serialized = second.serialized := by
  constructor
  · intro same
    unfold proxyCode at same
    obtain ⟨proxyType, same⟩ := prefixFree_proxyTypeCode trivial trivial same
    obtain ⟨host, same⟩ := prefixFree_textCode trivial trivial same
    obtain ⟨port, same⟩ := prefixFree_portCode trivial trivial same
    have username := prefixFree_textCode.option.injective (fun _ _ => trivial)
      (fun _ _ => trivial) same
    unfold ProxyConfig.serialized
    rw [proxyType, host, port, username]
  · intro same
    have code (proxy : ProxyConfig) : proxyCode proxy = proxyCode proxy.serialized := rfl
    rw [code first, code second, same]

/-- Bytes as letters. -/
def lettersOf (bytes : List UInt8) : List Char := bytes.map fun byte => Char.ofNat byte.toNat

theorem lettersOf_injective : Function.Injective lettersOf := by
  refine map_injective_iff.mpr fun first second same => ?_
  have numbers := congrArg Char.toNat same
  rw [toNat_ofNat_byte, toNat_ofNat_byte] at numbers
  exact UInt8.toNat_inj.mp numbers

/-- JSON that says of a proxy only that there is one, and which. -/
def sampleJson : Option ProxyConfig → String
  | none => "null"
  | some proxy => String.ofList ('[' :: lettersOf (proxyCode proxy))

def sampleCrates : Crates where
  Digest := List UInt8
  finish := id
  writeDigest := markedBytes
  proxyJson := sampleJson
  proxyCommandFingerprint := id

theorem sampleCrates_faithful : sampleCrates.Faithful where
  finish := Function.injective_id
  writeDigest := prefixFree_markedBytes
  proxyJson first second := by
    cases first with
    | none =>
      cases second with
      | none => exact iff_of_true rfl rfl
      | some proxy =>
        refine iff_of_false (fun same => ?_) (fun same => by cases same)
        exact absurd (cons.inj (String.ofList_injective same)).1 (by decide)
    | some proxy =>
      cases second with
      | none =>
        refine iff_of_false (fun same => ?_) (fun same => by cases same)
        exact absurd (cons.inj (String.ofList_injective same)).1 (by decide)
      | some other =>
        rw [Option.map_some, Option.map_some, Option.some_inj, ← proxyCode_eq_iff]
        constructor
        · intro same
          exact lettersOf_injective (cons.inj (String.ofList_injective same)).2
        · intro same
          exact congrArg (fun code => String.ofList ('[' :: lettersOf code)) same

def sampleHost (id : Uuid) (hostname : String) (jumpChain : List Uuid)
    (proxy : Option ProxyConfig) : Connection where
  id := id
  hostname := hostname
  port := 22
  isSsh := true
  mcpEnabled := true
  addressFamily := .auto
  username := some "ops"
  authMethod := .auto
  keyId := none
  useDiskKey := false
  identityFile := none
  identityId := none
  groupId := none
  jumpChain := jumpChain
  proxy := proxy
  proxyIdentityId := none
  ciphers := none
  kex := none
  macs := none
  hostKeyAlgorithms := none

/-- A database behind a bastion behind a proxy. -/
def sampleVault (proxyHost : String) : VaultStore where
  connections := [sampleHost 2 "bastion" [] (some ⟨.socks5, proxyHost, 1080, none, none⟩),
    sampleHost 1 "db" [2] none]
  groups := []
  identities := []
  proxyIdentities := []
  knownHosts := [⟨"bastion", 22, "ssh-ed25519", "SHA256:b"⟩, ⟨"db", 22, "ssh-ed25519", "SHA256:d"⟩]
  trustedProxyCommands := []
  connectionHasPassword := fun _ => false
  proxyPassword := fun _ => none
  proxyIdentityPassword := fun _ => none
  failure := fun _ => none

/-- The bastion is put behind another proxy, and the signature stays. -/
theorem first_hop_proxy_unseen : ∃ plan plan',
    resolveDialPlan sampleCrates (sampleVault "proxy.old") 1 = .ok plan ∧
      resolveDialPlan sampleCrates (sampleVault "proxy.new") 1 = .ok plan' ∧
      plan.dialledProxy.map ProxyConfig.host = some "proxy.old" ∧
      plan'.dialledProxy.map ProxyConfig.host = some "proxy.new" ∧
      plan.signature = plan'.signature :=
  ⟨_, _, rfl, rfl, rfl, rfl, rfl⟩

theorem signatures_differ_iff_sample : ∃ plan plan',
    resolveDialPlan sampleCrates (sampleVault "proxy.old") 1 = .ok plan ∧
      resolveDialPlan sampleCrates (sampleVault "proxy.new") 1 = .ok plan' ∧
      ((¬ SameRoute (sampleVault "proxy.old") (sampleVault "proxy.new") plan plan' →
          plan.signature ≠ plan'.signature) ↔
        (Hashed.SameRead sampleCrates (plan.hashed (sampleVault "proxy.old"))
            (plan'.hashed (sampleVault "proxy.new")) →
          plan.hops = plan'.hops ∧ plan.firstHop.map ProxyConfig.serialized
            = plan'.firstHop.map ProxyConfig.serialized)) := by
  have fits (conn : Connection) (chain : conn.jumpChain = [2]) (ciphers : conn.ciphers = none)
      (kex : conn.kex = none) (macs : conn.macs = none) (keys : conn.hostKeyAlgorithms = none) :
      conn.Fits := by
    refine ⟨?_, ?_, ?_, ?_, ?_⟩
    · rw [chain]
      decide
    all_goals
      simp [ciphers, kex, macs, keys]
  have resolves : resolveDialPlan sampleCrates (sampleVault "proxy.old") 1 = .ok _ := rfl
  have resolves' : resolveDialPlan sampleCrates (sampleVault "proxy.new") 1 = .ok _ := rfl
  exact ⟨_, _, resolves, resolves', signatures_differ_iff sampleCrates_faithful resolves resolves'
    ⟨fits _ rfl rfl rfl rfl rfl, by decide⟩ ⟨fits _ rfl rfl rfl rfl rfl, by decide⟩⟩

end DialPlan

end Oryxis.Routes

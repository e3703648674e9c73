/-
This file is the relay's table of devices and who may change it.

A registration is signed, and the first one of a device pins its key: until it expires,
another key is refused, in the lock in which the record is written. A request to take a
device off the table reads the pinned key in one lock and removes the record in another.
What is registered in between is removed with the key of a request that was checked
against something else. That is the only way a live record goes without its key.
-/

import Oryxis.Library.Machine
import Mathlib.Data.List.Basic

namespace Oryxis.Relay

open Library

/-! ### The requests -/

abbrev Uuid := Nat

/-- The bytes of a verifying key. -/
abbrev PubKey := List UInt8

structure DeviceRecord where
  deviceId : Uuid
  publicKeyFp : String
  ip : String
  port : Nat
  registeredAt : String

structure RegisterReq where
  deviceId : Uuid
  publicKeyFp : String
  publicKey : String
  ip : String
  port : Nat
  signedAt : Int
  signature : String

/-- The headers of a request to unregister. -/
structure UnregisterReq where
  id : String
  pubkey : Option String
  signedAt : Option String
  signature : Option String

inductive Response where
  | ok
  | unauthorized
  | badRequest (message : String)
  | forbidden (message : String)

/-- What the relay takes from elsewhere: hex, the texts of ids and numbers, and signatures. -/
structure Signing where
  decodeFixedHex : Nat → String → Option (List UInt8)
  parseUuid : String → Option Uuid
  uuidText : Uuid → String
  parseInt : String → Option Int
  isKey : PubKey → Bool
  verifyStrict : PubKey → String → List UInt8 → Bool

/-- In nanoseconds of the monotonic clock. -/
def registerTtl : Nat := 300 * 1000000000

def timestampSkewSecs : Nat := 60

def timestampFresh (now signedAt : Int) : Bool := (now - signedAt).natAbs ≤ timestampSkewSecs

def registerSignLabel : String := "oryxis-register-v1"

def unregisterSignLabel : String := "oryxis-unregister-v1"

def registerSignPayload (signing : Signing) (deviceId : Uuid) (ip : String) (port : Nat)
    (signedAt : Int) : String :=
  "\n".intercalate [registerSignLabel, signing.uuidText deviceId, ip, toString port,
    toString signedAt]

def unregisterSignPayload (signing : Signing) (deviceId : Uuid) (signedAt : Int) : String :=
  "\n".intercalate [unregisterSignLabel, signing.uuidText deviceId, toString signedAt]

/-! ### The table -/

structure StoredRecord where
  record : DeviceRecord
  insertedAt : Nat
  pinnedPubkey : PubKey

abbrev DeviceTable := Uuid → Option StoredRecord

def StoredRecord.isLive (stored : StoredRecord) (now : Nat) : Bool :=
  now - stored.insertedAt ≤ registerTtl

inductive RegisterOutcome where
  | accepted
  | pubkeyMismatch

def DeviceTable.set (devices : DeviceTable) (deviceId : Uuid) (stored : Option StoredRecord) :
    DeviceTable :=
  fun other => if other = deviceId then stored else devices other

/-- The clock may go on between the look at the old record and the stamp on the new one. -/
def DeviceTable.register (devices : DeviceTable) (now insertedAt : Nat) (record : DeviceRecord)
    (pubkey : PubKey) : DeviceTable × RegisterOutcome :=
  if (devices record.deviceId).any fun existing =>
      existing.isLive now && existing.pinnedPubkey ≠ pubkey then
    (devices, .pubkeyMismatch)
  else (devices.set record.deviceId (some ⟨record, insertedAt, pubkey⟩), .accepted)

/-- A record that has expired is dropped as it is looked up. -/
def DeviceTable.lookup (devices : DeviceTable) (now : Nat) (deviceId : Uuid) :
    DeviceTable × Option DeviceRecord :=
  if (devices deviceId).any fun stored => !stored.isLive now then
    (devices.set deviceId none, none)
  else (devices, (devices deviceId).map StoredRecord.record)

def DeviceTable.pinnedPubkey (devices : DeviceTable) (deviceId : Uuid) : Option PubKey :=
  (devices deviceId).map StoredRecord.pinnedPubkey

def DeviceTable.unregister (devices : DeviceTable) (deviceId : Uuid) : DeviceTable :=
  devices.set deviceId none

def DeviceTable.sweep (devices : DeviceTable) (now : Nat) : DeviceTable :=
  fun deviceId => (devices deviceId).filter fun stored => stored.isLive now

/-! ### The handlers -/

section

variable (signing : Signing) (token : String)

def checkAuth (authorization : Option String) : Bool :=
  (((authorization.getD "").dropPrefix? "Bearer ").map (·.toString)).getD "" = token

/-- What a request to register has to show before the table is asked. -/
def admitRegister (authorization : Option String) (now : Int) (stamp : String)
    (req : RegisterReq) : Except Response (DeviceRecord × PubKey) :=
  if !checkAuth token authorization then .error .unauthorized
  else
    match signing.decodeFixedHex 32 req.publicKey with
    | none => .error (.badRequest "Bad public_key")
    | some pubkey =>
      match signing.decodeFixedHex 64 req.signature with
      | none => .error (.badRequest "Bad signature")
      | some signature =>
        if !timestampFresh now req.signedAt then .error (.badRequest "Stale signed_at")
        else if !signing.isKey pubkey then .error (.badRequest "Bad public_key")
        else if !signing.verifyStrict pubkey
            (registerSignPayload signing req.deviceId req.ip req.port req.signedAt) signature then
          .error (.badRequest "Bad signature")
        else .ok (⟨req.deviceId, req.publicKeyFp, req.ip, req.port, stamp⟩, pubkey)

/-- What a request to unregister has to show before the table is asked. -/
def admitUnregister (authorization : Option String) (now : Int) (req : UnregisterReq) :
    Except Response (Uuid × PubKey) :=
  if !checkAuth token authorization then .error .unauthorized
  else
    match signing.parseUuid req.id with
    | none => .error (.badRequest "Bad id")
    | some deviceId =>
      match req.pubkey, req.signedAt, req.signature with
      | none, _, _ => .error (.badRequest "Missing X-Pubkey")
      | _, none, _ => .error (.badRequest "Missing X-Signed-At")
      | _, _, none => .error (.badRequest "Missing X-Signature")
      | some pubkeyHex, some signedAtText, some signatureHex =>
        match signing.decodeFixedHex 32 pubkeyHex with
        | none => .error (.badRequest "Bad X-Pubkey")
        | some pubkey =>
          match signing.decodeFixedHex 64 signatureHex with
          | none => .error (.badRequest "Bad X-Signature")
          | some signature =>
            match signing.parseInt signedAtText with
            | none => .error (.badRequest "Bad X-Signed-At")
            | some signedAt =>
              if !timestampFresh now signedAt then .error (.badRequest "Stale signed_at")
              else if !signing.isKey pubkey then .error (.badRequest "Bad X-Pubkey")
              else if !signing.verifyStrict pubkey (unregisterSignPayload signing deviceId signedAt)
                  signature then
                .error (.badRequest "Bad X-Signature")
              else .ok (deviceId, pubkey)

end

/-! ### The relay -/

/-- A request to unregister whose check the table has passed. -/
structure Removal where
  deviceId : Uuid
  pubkey : PubKey

/-- A registration that was accepted, or a removal: whose request it was, and when. -/
structure Event where
  deviceId : Uuid
  pubkey : PubKey
  time : Nat
  stored : Option StoredRecord

/-- The relay, the requests to unregister that are between their check and their removal, and what
was registered and removed so far, last first. -/
structure Server where
  clock : Nat
  devices : DeviceTable
  passed : List Removal
  log : List Event

inductive Action where
  | tick (time : Nat)
  | register (authorization : Option String) (now : Int) (stamp : String) (req : RegisterReq)
      (late : Nat)
  | unregister (authorization : Option String) (now : Int) (req : UnregisterReq)
  | remove (index : Nat)
  | lookup (deviceId : Uuid)
  | sweep

def Server.start : Server := ⟨0, fun _ => none, [], []⟩

def Server.register (relay : Server) (record : DeviceRecord) (pubkey : PubKey) (late : Nat) : Server :=
  match relay.devices.register relay.clock (relay.clock + late) record pubkey with
  | (devices, .accepted) =>
    { relay with
      clock := relay.clock + late
      devices := devices
      log := ⟨record.deviceId, pubkey, relay.clock, some ⟨record, relay.clock + late, pubkey⟩⟩ ::
        relay.log }
  | (_, .pubkeyMismatch) => { relay with clock := relay.clock + late }

/-- The first lock of a request to unregister: no entry, or the pinned key. -/
def Server.check (relay : Server) (deviceId : Uuid) (pubkey : PubKey) : Server :=
  if (relay.devices.pinnedPubkey deviceId).any (· ≠ pubkey) then relay
  else { relay with passed := relay.passed ++ [⟨deviceId, pubkey⟩] }

/-- The second lock. -/
def Server.remove (relay : Server) (index : Nat) (removal : Removal) : Server :=
  { relay with
    devices := relay.devices.unregister removal.deviceId
    passed := relay.passed.eraseIdx index
    log := ⟨removal.deviceId, removal.pubkey, relay.clock, none⟩ :: relay.log }

def serving (signing : Signing) (token : String) : Machine Server Action where
  step relay action :=
    match action with
    | .tick time => some { relay with clock := relay.clock + time }
    | .register authorization now stamp req late =>
      match admitRegister signing token authorization now stamp req with
      | .error _ => some relay
      | .ok (record, pubkey) => some (relay.register record pubkey late)
    | .unregister authorization now req =>
      match admitUnregister signing token authorization now req with
      | .error _ => some relay
      | .ok (deviceId, pubkey) => some (relay.check deviceId pubkey)
    | .remove index => relay.passed[index]?.map fun removal => relay.remove index removal
    | .lookup deviceId =>
      some { relay with devices := (relay.devices.lookup relay.clock deviceId).1 }
    | .sweep => some { relay with devices := relay.devices.sweep relay.clock }

/-! ### What is to hold -/

/-- The registration of a device that was neither replaced nor removed since. -/
def standing : List Event → Uuid → Option StoredRecord
  | [], _ => none
  | event :: earlier, deviceId =>
    if event.deviceId = deviceId then event.stored else standing earlier deviceId

/-- While a registration is live, only requests signed with its key replace or remove it. -/
def Owned : List Event → Prop
  | [] => True
  | event :: earlier =>
    (∀ stored ∈ standing earlier event.deviceId, stored.isLive event.time →
      event.pubkey = stored.pinnedPubkey) ∧ Owned earlier

/-- A lookup answers with the last record that was accepted and neither removed nor expired. -/
def LooksUp (relay : Server) : Prop :=
  ∀ deviceId, (relay.devices.lookup relay.clock deviceId).2 =
    ((standing relay.log deviceId).filter fun stored => stored.isLive relay.clock).map
      StoredRecord.record

/-- A removal whose check would pass once more where it is made, what has expired aside. -/
def StillPasses (relay : Server) : Action → Prop
  | .remove index => ∀ removal ∈ relay.passed[index]?, ∀ stored ∈ relay.devices removal.deviceId,
      stored.isLive relay.clock → stored.pinnedPubkey = removal.pubkey
  | _ => True

instance decidableStillPasses (relay : Server) : ∀ action, Decidable (StillPasses relay action)
  | .remove index => inferInstanceAs (Decidable (∀ removal ∈ relay.passed[index]?,
      ∀ stored ∈ relay.devices removal.deviceId, stored.isLive relay.clock →
        stored.pinnedPubkey = removal.pubkey))
  | .tick _ | .register .. | .unregister .. | .lookup _ | .sweep => isTrue trivial

/-! ### The table and the log -/

section

variable {relay next : Server} {deviceId other : Uuid}

theorem set_self (devices : DeviceTable) (stored : Option StoredRecord) :
    devices.set deviceId stored deviceId = stored := if_pos rfl

theorem set_of_ne (devices : DeviceTable) (stored : Option StoredRecord)
    (distinct : other ≠ deviceId) : devices.set deviceId stored other = devices other :=
  if_neg distinct

theorem not_isLive_later {stored : StoredRecord} {now later : Nat} (order : now ≤ later)
    (expired : stored.isLive now = false) : stored.isLive later = false := by
  simp only [StoredRecord.isLive, decide_eq_false_iff_not] at expired ⊢
  omega

/-- An entry of the table is the standing registration; where there is none, that has expired. -/
def Tracks (relay : Server) : Prop :=
  ∀ deviceId, relay.devices deviceId = standing relay.log deviceId ∨
    relay.devices deviceId = none ∧
      ∀ stored ∈ standing relay.log deviceId, stored.isLive relay.clock = false

theorem Tracks.live (tracks : Tracks relay) {stored : StoredRecord}
    (stands : standing relay.log deviceId = some stored) (live : stored.isLive relay.clock = true) :
    relay.devices deviceId = some stored := by
  rcases tracks deviceId with same | ⟨-, expired⟩
  · rw [same, stands]
  · rw [expired stored stands] at live
    cases live

theorem Tracks.looksUp (tracks : Tracks relay) : LooksUp relay := by
  intro deviceId
  rcases tracks deviceId with same | ⟨absent, expired⟩
  · rw [← same, DeviceTable.lookup]
    cases relay.devices deviceId with
    | none => rfl
    | some stored => cases live : stored.isLive relay.clock <;> simp [live, Option.filter]
  · rw [DeviceTable.lookup, absent]
    cases stands : standing relay.log deviceId with
    | none => rfl
    | some stored => simp [Option.filter, expired stored stands]

/-! ### One step -/

theorem Tracks.later (tracks : Tracks relay) (time : Nat) :
    Tracks { relay with clock := relay.clock + time } := by
  intro deviceId
  refine (tracks deviceId).imp_right (And.imp_right fun expired stored stands => ?_)
  exact not_isLive_later (Nat.le_add_right relay.clock time) (expired stored stands)

/-- An entry that is written or removed is what the log now says of its device. -/
theorem Tracks.set (tracks : Tracks relay) (event : Event) {later : Nat}
    (order : relay.clock ≤ later) {passed : List Removal} :
    Tracks ⟨later, relay.devices.set event.deviceId event.stored, passed, event :: relay.log⟩ := by
  intro deviceId
  by_cases here : deviceId = event.deviceId
  · subst here
    refine .inl ?_
    show relay.devices.set _ _ _ = standing (event :: relay.log) _
    rw [set_self, standing, if_pos rfl]
  · show relay.devices.set _ _ _ = standing (event :: relay.log) _ ∨
      relay.devices.set _ _ _ = none ∧ ∀ stored ∈ standing (event :: relay.log) _, _
    rw [set_of_ne _ _ here, standing, if_neg (Ne.symm here)]
    exact (tracks deviceId).imp_right (And.imp_right fun expired stored stands =>
      not_isLive_later order (expired stored stands))

/-- Only what has expired is dropped without a request. -/
theorem Tracks.drop (tracks : Tracks relay) {devices : DeviceTable}
    (dropped : ∀ deviceId, devices deviceId = relay.devices deviceId ∨
      devices deviceId = none ∧ ∀ stored ∈ relay.devices deviceId, stored.isLive relay.clock = false) :
    Tracks { relay with devices := devices } := by
  intro deviceId
  rcases dropped deviceId with same | ⟨absent, expired⟩
  · exact (congrArg (· = _) same ▸ (tracks deviceId).imp_right fun gone => ⟨same.trans gone.1, gone.2⟩)
  · refine .inr ⟨absent, fun stored stands => ?_⟩
    rcases tracks deviceId with same | ⟨-, already⟩
    · exact expired stored (same.trans stands)
    · exact already stored stands

theorem Tracks.register (tracks : Tracks relay) (record : DeviceRecord) (pubkey : PubKey)
    (late : Nat) :
    Tracks (relay.register record pubkey late) ∧
      (Owned (relay.register record pubkey late).log ↔ Owned relay.log) := by
  unfold Server.register DeviceTable.register
  by_cases pinned : (relay.devices record.deviceId).any (fun existing =>
      existing.isLive relay.clock && existing.pinnedPubkey ≠ pubkey) = true
  · rw [if_pos pinned]
    exact ⟨tracks.later late, Iff.rfl⟩
  · rw [if_neg pinned]
    refine ⟨tracks.set ⟨record.deviceId, pubkey, relay.clock,
      some ⟨record, relay.clock + late, pubkey⟩⟩ (Nat.le_add_right relay.clock late), ?_⟩
    refine and_iff_right fun stored stands live => ?_
    have entry := tracks.live stands live
    by_contra another
    refine pinned ?_
    show (relay.devices record.deviceId).any _ = true
    rw [entry]
    simpa [Option.any, live] using Ne.symm another

theorem Tracks.check (tracks : Tracks relay) (deviceId : Uuid) (pubkey : PubKey) :
    Tracks (relay.check deviceId pubkey) ∧
      (Owned (relay.check deviceId pubkey).log ↔ Owned relay.log) := by
  unfold Server.check
  split
  · exact ⟨tracks, Iff.rfl⟩
  · exact ⟨tracks, Iff.rfl⟩

theorem Tracks.remove (tracks : Tracks relay) (index : Nat) (removal : Removal) :
    Tracks (relay.remove index removal) ∧ (Owned (relay.remove index removal).log ↔
      Owned relay.log ∧ ∀ stored ∈ relay.devices removal.deviceId,
        stored.isLive relay.clock → stored.pinnedPubkey = removal.pubkey) := by
  refine ⟨tracks.set ⟨removal.deviceId, removal.pubkey, relay.clock, none⟩ (Nat.le_refl _), ?_⟩
  refine Iff.trans and_comm (and_congr_right fun _ => ?_)
  constructor
  · intro owned stored entry live
    rcases tracks removal.deviceId with same | ⟨absent, -⟩
    · exact (owned stored (same ▸ entry) live).symm
    · rw [absent] at entry
      cases entry
  · exact fun passes stored stands live => (passes stored (tracks.live stands live) live).symm

theorem Tracks.lookup (tracks : Tracks relay) (deviceId : Uuid) :
    Tracks { relay with devices := (relay.devices.lookup relay.clock deviceId).1 } := by
  refine tracks.drop fun other => ?_
  unfold DeviceTable.lookup
  split
  · rename_i expired
    by_cases here : other = deviceId
    · subst here
      refine .inr ⟨set_self _ _, fun stored entry => ?_⟩
      rw [show relay.devices other = some stored from entry] at expired
      simpa [Option.any] using expired
    · exact .inl (set_of_ne _ _ here)
  · exact .inl rfl

theorem Tracks.sweep (tracks : Tracks relay) :
    Tracks { relay with devices := relay.devices.sweep relay.clock } := by
  refine tracks.drop fun deviceId => ?_
  unfold DeviceTable.sweep
  cases entry : relay.devices deviceId with
  | none => exact .inl rfl
  | some stored =>
    cases live : stored.isLive relay.clock with
    | true => exact .inl (by simp [Option.filter, live])
    | false =>
      refine .inr ⟨by simp [Option.filter, live], ?_⟩
      rintro other ⟨⟩
      exact live

/-- What a step does to the table stays what the log says, and the log stays in order exactly when
a removal still passes its check. -/
theorem Tracks.step {signing : Signing} {token : String} (tracks : Tracks relay) {action : Action}
    (stepped : (serving signing token).step relay action = some next) :
    Tracks next ∧ (Owned next.log ↔ Owned relay.log ∧ StillPasses relay action) := by
  have quiet : ∀ {state : Server}, Tracks state ∧ (Owned state.log ↔ Owned relay.log) →
      some state = some next → (Owned relay.log ↔ Owned relay.log ∧ True) →
        Tracks next ∧ (Owned next.log ↔ Owned relay.log ∧ True) := by
    rintro state holds ⟨⟩ same
    exact ⟨holds.1, holds.2.trans same⟩
  have same : Owned relay.log ↔ Owned relay.log ∧ True := (Iff.of_eq (and_true _)).symm
  cases action with
  | tick time => exact quiet ⟨tracks.later time, Iff.rfl⟩ stepped same
  | register authorization now stamp req late =>
    simp only [serving] at stepped
    cases admitted : admitRegister signing token authorization now stamp req with
    | error response =>
      rw [admitted] at stepped
      exact quiet ⟨tracks, Iff.rfl⟩ stepped same
    | ok request =>
      rw [admitted] at stepped
      exact quiet (tracks.register request.1 request.2 late) stepped same
  | unregister authorization now req =>
    simp only [serving] at stepped
    cases admitted : admitUnregister signing token authorization now req with
    | error response =>
      rw [admitted] at stepped
      exact quiet ⟨tracks, Iff.rfl⟩ stepped same
    | ok request =>
      rw [admitted] at stepped
      exact quiet (tracks.check request.1 request.2) stepped same
  | remove index =>
    obtain ⟨removal, found, rfl⟩ := Option.map_eq_some_iff.mp stepped
    refine ⟨(tracks.remove index removal).1, (tracks.remove index removal).2.trans ?_⟩
    refine and_congr_right fun _ => ?_
    show _ ↔ ∀ removal ∈ relay.passed[index]?, _
    rw [found]
    exact ⟨fun passes other isSame => by cases isSame; exact passes, fun passes => passes removal rfl⟩
  | lookup deviceId => exact quiet ⟨tracks.lookup deviceId, Iff.rfl⟩ stepped same
  | sweep => exact quiet ⟨tracks.sweep, Iff.rfl⟩ stepped same

/-! ### Whole runs -/

theorem tracks_start : Tracks Server.start := fun _ => .inl rfl

/-- In every run a lookup answers with what stands and is live; and a live record goes only with its
own key exactly where every removal would still pass its check. -/
theorem ownedByKey_iff {signing : Signing} {token : String} {final : Server} {actions : List Action}
    (ran : (serving signing token).run .start actions = some final) :
    LooksUp final ∧
      (Owned final.log ↔ (serving signing token).Along StillPasses .start actions) := by
  have keeps : ∀ (relay : Server) (action : Action) (next : Server), Tracks relay →
      (serving signing token).step relay action = some next → Tracks next :=
    fun relay action next tracks stepped => (tracks.step stepped).1
  have judges : ∀ (relay : Server) (action : Action) (next : Server), Tracks relay →
      (serving signing token).step relay action = some next →
      (Owned next.log ↔ Owned relay.log ∧ StillPasses relay action) :=
    fun relay action next tracks stepped => (tracks.step stepped).2
  have kept : Tracks final := Machine.invariant
    (fun relay action next tracks _ stepped => keeps relay action next tracks stepped) tracks_start
    (Machine.along_true _ _ _) ran
  have judged := Machine.verdict_iff_along keeps judges tracks_start ran
  exact ⟨kept.looksUp, judged.trans (and_iff_right trivial)⟩

end

/-! ### Two keys -/

/-- Hex of one digit throughout, and signatures that repeat the first byte of their key. -/
def sampleSigning : Signing where
  decodeFixedHex length text :=
    if text = String.ofList (List.replicate (2 * length) '1') then some (List.replicate length 0x11)
    else if text = String.ofList (List.replicate (2 * length) '2') then
      some (List.replicate length 0x22)
    else none
  parseUuid text := if text = "7" then some 7 else none
  uuidText id := if id = 7 then "7" else "0"
  parseInt text := if text = "0" then some 0 else none
  isKey _ := true
  verifyStrict pubkey _ signature := pubkey.head? = signature.head?

def repeated (digit : Char) (length : Nat) : String := String.ofList (List.replicate length digit)

/-- A device that registers with the first key. -/
def registers : Action :=
  .register (some "Bearer t") 0 "now" ⟨7, "fp", repeated '1' 64, "203.0.113.5", 9001, 0,
    repeated '1' 128⟩ 0

/-- A request to take the device off, signed with the key of the digit. -/
def unregisters (digit : Char) : Action :=
  .unregister (some "Bearer t") 0 ⟨"7", some (repeated digit 64), some "0",
    some (repeated digit 128)⟩

theorem ownedByKey_removedByItself : ∃ final,
    (serving sampleSigning "t").run .start [registers, unregisters '2', unregisters '1', .remove 0] =
        some final ∧ LooksUp final ∧ Owned final.log := by
  have ends : ((serving sampleSigning "t").run .start [registers, unregisters '2', unregisters '1',
      .remove 0]).isSome = true := by decide +kernel
  obtain ⟨final, ran⟩ := Option.isSome_iff_exists.mp ends
  have both := ownedByKey_iff ran
  exact ⟨final, ran, both.1, both.2.mpr (by decide +kernel)⟩

/-- The second key's request is checked while the device is not there, and removes it later. -/
def checkedBefore : List Action := [unregisters '2', registers, .remove 0]

theorem not_owned_checkedBefore : ∃ final,
    (serving sampleSigning "t").run .start checkedBefore = some final ∧ ¬ Owned final.log := by
  have ends : ((serving sampleSigning "t").run .start checkedBefore).any (fun final =>
      decide (∃ removed ∈ final.log.head?, ∃ stored ∈ standing final.log.tail removed.deviceId,
        stored.isLive removed.time = true ∧ removed.pubkey ≠ stored.pinnedPubkey)) = true := by
    decide +kernel
  obtain ⟨final, ran, strays⟩ := (Option.any_eq_true _ _).mp ends
  obtain ⟨removed, isLast, stored, stands, live, another⟩ := of_decide_eq_true strays
  refine ⟨final, ran, fun owned => ?_⟩
  cases log : final.log with
  | nil =>
    rw [log] at isLast
    cases isLast
  | cons event earlier =>
    rw [log] at isLast stands owned
    cases isLast
    exact another (owned.1 stored stands live)

end Oryxis.Relay

/-
This file is about who may change a host key pin.

A pin says that a hostname, port and key type answers with a fingerprint. A peer's
record or an imported file may introduce a pin but not replace one, and both paths
check that against the triple. The store is keyed otherwise: by an id the sender
chooses, and by the pair of hostname and port. A pin of another key type on the
same hostname and port, and a pin of any other triple that has the same id, goes
when the incoming one is stored. An accepted pin that finds no such pin leaves all
the pins of the vault in force, and a run that accepts only those never re-pins a
host.
-/

import Oryxis.Sync.GroupRepair
import Oryxis.Sync.Turns

namespace Oryxis

open Library List

/-- What a pin is about: the triple the host key check looks up. -/
def KnownHost.triple (pin : KnownHost) : String × Nat × String :=
  (pin.hostname, pin.port, pin.keyType)

namespace VaultStore

/-- The vault answers for a triple with a fingerprint. -/
def HoldsPin (vault : VaultStore) (triple : String × Nat × String) (fingerprint : String) : Prop :=
  ∃ pin ∈ vault.listKnownHosts, pin.triple = triple ∧ pin.fingerprint = fingerprint

instance (vault : VaultStore) (triple : String × Nat × String) (fingerprint : String) :
    Decidable (vault.HoldsPin triple fingerprint) :=
  inferInstanceAs (Decidable (∃ pin ∈ vault.listKnownHosts,
    pin.triple = triple ∧ pin.fingerprint = fingerprint))

/-- Storing a pin would remove the pin of another triple, by its id or by its hostname and
port. -/
def Unseats (vault : VaultStore) (pin : KnownHost) : Prop :=
  ∃ other ∈ vault.listKnownHosts,
    (other.id = pin.id ∨ (other.hostname = pin.hostname ∧ other.port = pin.port)) ∧
      other.triple ≠ pin.triple

instance (vault : VaultStore) (pin : KnownHost) : Decidable (vault.Unseats pin) :=
  inferInstanceAs (Decidable (∃ other ∈ vault.listKnownHosts,
    (other.id = pin.id ∨ (other.hostname = pin.hostname ∧ other.port = pin.port)) ∧
      other.triple ≠ pin.triple))

variable {fingerprint : String}

/-- One triple has one pin. -/
theorem fingerprint_unique {vault : VaultStore} {triple : String × Nat × String} {other : String}
    (held : vault.HoldsPin triple fingerprint) (otherHeld : vault.HoldsPin triple other) :
    fingerprint = other := by
  obtain ⟨pin, member, rfl, rfl⟩ := held
  obtain ⟨second, secondMember, same, rfl⟩ := otherHeld
  rw [mem_listKnownHosts] at member secondMember
  have endpoint : (Row.knownHost second).endpoint = some (pin.hostname, pin.port) := by
    simp only [KnownHost.triple, Prod.mk.injEq] at same
    simp [Row.endpoint, same]
  have equal := endpoint_unique member secondMember rfl endpoint
  cases equal
  rfl

/-- The pin the peer's check finds is the one of the triple. -/
theorem fingerprint_of_not_replacesLocalPin {vault : VaultStore} {pin other : KnownHost}
    (accepted : vault.replacesLocalPin pin = false) (member : other ∈ vault.listKnownHosts)
    (same : other.triple = pin.triple) : other.fingerprint = pin.fingerprint := by
  simp only [KnownHost.triple, Prod.mk.injEq] at same
  unfold replacesLocalPin at accepted
  split at accepted
  · rename_i found lookup
    have foundTriple : found.triple = other.triple := by
      have agrees := find?_some lookup
      simp only [Bool.and_eq_true, decide_eq_true_eq] at agrees
      simp [KnownHost.triple, agrees, same]
    have equal : found.fingerprint = pin.fingerprint := by simpa using accepted
    rw [← equal]
    exact fingerprint_unique ⟨other, member, rfl, rfl⟩
      ⟨found, mem_of_find?_eq_some lookup, foundTriple, rfl⟩
  · rename_i lookup
    have absent := find?_eq_none.mp lookup other member
    simp [same] at absent

/-! ### Saves and deletes -/

section Saves

variable {vault after : VaultStore} {row : Row} {now : Stamp}

/-- A pin in force stays in force when a row is saved, unless that row is a pin that unseats one
of another triple or disagrees with it. -/
theorem holdsPin_of_saves (effect : vault.Saves row now after)
    {triple : String × Nat × String} {fingerprint : String}
    (seated : ∀ pin, row = .knownHost pin → ¬ vault.Unseats pin)
    (agrees : ∀ pin, row = .knownHost pin → pin.triple = triple → pin.fingerprint = fingerprint)
    (held : vault.HoldsPin triple fingerprint) : after.HoldsPin triple fingerprint := by
  obtain ⟨pin, member, rfl, rfl⟩ := held
  have stored := (vault.mem_listKnownHosts pin).mp member
  -- Either the row stays, or the saved row is a pin of the same triple.
  have stays : (∀ saved, row = .knownHost saved → ¬ (pin.id = saved.id ∨
      (pin.hostname = saved.hostname ∧ pin.port = saved.port))) →
      after.HoldsPin pin.triple pin.fingerprint := by
    intro apart
    refine ⟨pin, (after.mem_listKnownHosts pin).mpr ?_, rfl, rfl⟩
    have different : ((.knownHost, pin.id) : EntityKey) ≠ row.key := by
      intro same
      cases row <;> simp [Row.key, Row.entityType] at same
      exact apart _ rfl (.inl same)
    have undisplaced :
        Table.displaces Row.key Row.endpoint row (.knownHost pin) = false := by
      cases row with
      | knownHost saved =>
        have elsewhere := apart saved rfl
        simp only [not_or] at elsewhere
        simpa [Table.displaces, Row.key, Row.entityType, Row.id, Row.endpoint] using elsewhere
      | _ => simp [Table.displaces, Row.key, Row.entityType, Row.endpoint]
    rw [effect.rowOf, if_neg different, stored, Option.filter_some, undisplaced]
    rfl
  by_cases isPin : ∃ saved, row = .knownHost saved ∧ (pin.id = saved.id ∨
      (pin.hostname = saved.hostname ∧ pin.port = saved.port))
  · obtain ⟨saved, rfl, meets⟩ := isPin
    have sameTriple : pin.triple = saved.triple := by
      by_contra different
      exact seated saved rfl ⟨pin, member, meets, different⟩
    exact ⟨saved, (after.mem_listKnownHosts saved).mpr effect.rowOf_self, sameTriple.symm,
      agrees saved rfl sameTriple.symm⟩
  · exact stays fun saved isSaved meets => isPin ⟨saved, isSaved, meets⟩

end Saves

theorem holdsPin_of_sameRows {vault other : VaultStore}
    (same : ∀ id, other.rowOf (.knownHost, id) = vault.rowOf (.knownHost, id))
    {triple : String × Nat × String} (held : vault.HoldsPin triple fingerprint) :
    other.HoldsPin triple fingerprint := by
  obtain ⟨pin, member, rfl, rfl⟩ := held
  rw [mem_listKnownHosts] at member
  exact ⟨pin, (other.mem_listKnownHosts pin).mpr ((same pin.id).trans member), rfl, rfl⟩

end VaultStore

/-! ### Batches -/

section Batch

variable {Bytes : Type} {codec : Codec Bytes} {secret : SharedSecret}

/-- A pin a record would have accepted unseats no pin of another triple. -/
def RecordSeated (codec : Codec Bytes) (secret : SharedSecret)
    (localStamps : EntityKey → Option Stamp) (state : ApplyState) (record : SyncRecord Bytes) :
    Prop :=
  passes localStamps record → ∀ pin, codec.openPayload secret record = some (.knownHost pin) →
    state.vault.replacesLocalPin pin = false → ¬ state.vault.Unseats pin

/-- The same of every record of a batch, each in its turn. -/
def BatchSeated (codec : Codec Bytes) (secret : SharedSecret) (now : Nat → Stamp)
    (vault : VaultStore) (records : List (SyncRecord Bytes)) : Prop :=
  ∀ meeting ∈ meetings codec secret vault.localStamps now 0 ⟨vault, none, []⟩ records,
    RecordSeated codec secret vault.localStamps meeting.1 meeting.2

theorem received_eq_knownHost {vault : VaultStore} {lastUsed : Option Stamp}
    {payload : SyncPayload} {pin : KnownHost}
    (isPin : vault.received lastUsed payload = .knownHost pin) : payload = .knownHost pin := by
  cases payload <;> cases isPin
  rfl

variable {fingerprint : String}

theorem holdsPin_applyRecord (codec : Codec Bytes) (secret : SharedSecret)
    (localStamps : EntityKey → Option Stamp) (now : Stamp) (state : ApplyState)
    (record : SyncRecord Bytes) (live : record.isDeleted = false)
    (seated : RecordSeated codec secret localStamps state record) {triple : String × Nat × String}
    (held : state.vault.HoldsPin triple fingerprint) :
    (applyRecord codec secret localStamps now state record).vault.HoldsPin triple fingerprint := by
  have outcome := turnOutcome_applyRecord codec secret localStamps now state record
  cases outcome with
  | stale _ same => rwa [same]
  | deleted _ isDeleted => exact absurd isDeleted (by simp [live])
  | deleteRefused _ isDeleted => exact absurd isDeleted (by simp [live])
  | unreadable _ _ _ _ same => rwa [same]
  | payload fresh _ payload opened outcome =>
    cases outcome with
    | saved effect accepted =>
      refine VaultStore.holdsPin_of_saves effect ?_ ?_ held
      · intro pin isPin
        have isPayload := received_eq_knownHost isPin
        subst isPayload
        exact seated fresh pin opened accepted
      · rintro pin isPin rfl
        obtain ⟨other, member, same, rfl⟩ := held
        have isPayload := received_eq_knownHost isPin
        subst isPayload
        exact (VaultStore.fingerprint_of_not_replacesLocalPin accepted member same).symm
    | keyChangeRefused _ _ _ same =>
      exact VaultStore.holdsPin_of_sameRows (fun id => same.rowOf _) held
    | saveRefused host _ _ _ _ _ _ rowOf =>
      refine VaultStore.holdsPin_of_sameRows (fun id => ?_) held
      rw [rowOf]
      cases found : state.vault.rowOf (.knownHost, id) with
      | none => rfl
      | some row =>
        have rowKey := VaultStore.key_of_rowOf found
        rw [Option.map_some, VaultStore.updateSecrets_of_key_ne _ (by simp [rowKey])]

theorem holdsPin_applyRecords (codec : Codec Bytes) {vault after : VaultStore}
    {records : List (SyncRecord Bytes)} {secret : SharedSecret} {now : Nat → Stamp}
    {warnings : List SyncWarning} (live : ∀ record ∈ records, record.isDeleted = false)
    (seated : BatchSeated codec secret now vault records)
    (applied : applyRecords codec vault records (some secret) now = .ok (after, warnings))
    {triple : String × Nat × String} (held : vault.HoldsPin triple fingerprint) :
    after.HoldsPin triple fingerprint := by
  have loop : (appliedState codec secret now vault records).vault.HoldsPin triple fingerprint :=
    applyLoop_invariant codec secret _ now
      (fun state => state.vault.HoldsPin triple fingerprint) 0 _ records
      (fun before record member before reading => holdsPin_applyRecord codec secret _
        (now reading) _ record (live record (record_mem_of_mem_meetings member))
        (seated _ member) before) held
  simp only [applyRecords, Except.ok.injEq, Prod.mk.injEq] at applied
  rw [← applied.1]
  split
  · exact VaultStore.holdsPin_of_sameRows
      (fun id => VaultStore.rowOf_breakGroupCycles_of_ne _ _ (by simp)) loop
  · exact loop

end Batch

/-! ### Imports -/

/-- What an import saves outside `known_hosts`. -/
abbrev PinlessSave := { save : EntitySave // ∀ pin, save ≠ .knownHost pin }

namespace VaultStore

/-- Saves in a row: the first one that is refused ends them. -/
def saveUntilRefused (vault : VaultStore) : List (PinlessSave × Stamp) → VaultStore × Bool
  | [] => (vault, true)
  | (save, now) :: saves =>
    match vault.saveEntity now save.1 with
    | .ok vault => vault.saveUntilRefused saves
    | .error _ => (vault, false)

/-- Whether an imported pin is known by id or by triple to the vault the import began with. -/
def alreadyPinned (existing : List KnownHost) (pin : KnownHost) : Bool :=
  existing.any fun known => known.id = pin.id ||
    (known.hostname = pin.hostname && known.port = pin.port && known.keyType = pin.keyType)

def importKnownHosts (existing : List KnownHost) (vault : VaultStore)
    (pins : List (KnownHost × Stamp)) : VaultStore :=
  pins.foldl
    (fun vault (pin, now) =>
      if alreadyPinned existing pin then vault else vault.saveKnownHost pin now)
    vault

/-- An import as far as pins go: what it saves before them, the pins, and what it saves after
them. -/
def importVault (vault : VaultStore) (earlier : List (PinlessSave × Stamp))
    (pins : List (KnownHost × Stamp)) (later : List (PinlessSave × Stamp)) : VaultStore :=
  let existing := vault.listKnownHosts
  let (vault, complete) := vault.saveUntilRefused earlier
  if complete then ((importKnownHosts existing vault pins).saveUntilRefused later).1 else vault

/-- No pin an import accepts unseats a pin of another triple. -/
def ImportSeated (existing : List KnownHost) : VaultStore → List (KnownHost × Stamp) → Prop
  | _, [] => True
  | vault, (pin, now) :: pins =>
    if alreadyPinned existing pin then ImportSeated existing vault pins
    else ¬ vault.Unseats pin ∧ ImportSeated existing (vault.saveKnownHost pin now) pins

variable {fingerprint : String}

theorem holdsPin_saveUntilRefused {triple : String × Nat × String}
    (saves : List (PinlessSave × Stamp)) {vault : VaultStore}
    (held : vault.HoldsPin triple fingerprint) :
    (vault.saveUntilRefused saves).1.HoldsPin triple fingerprint := by
  induction saves generalizing vault with
  | nil => exact held
  | cons entry saves inductionHypothesis =>
    obtain ⟨⟨save, pinless⟩, now⟩ := entry
    have notPin : ∀ pin, vault.savedRow save ≠ .knownHost pin := by
      intro pin isPin
      cases save <;> cases isPin
      exact pinless pin rfl
    simp only [saveUntilRefused]
    split
    · rename_i done
      exact inductionHypothesis (holdsPin_of_saves (saves_saveEntity done)
        (fun pin isPin => absurd isPin (notPin pin)) (fun pin isPin => absurd isPin (notPin pin))
        held)
    · exact held

theorem holdsPin_importKnownHosts {existing : List KnownHost} {triple : String × Nat × String}
    (known : ∃ pin ∈ existing, pin.triple = triple) (pins : List (KnownHost × Stamp))
    {vault : VaultStore} (seated : ImportSeated existing vault pins)
    (held : vault.HoldsPin triple fingerprint) :
    (importKnownHosts existing vault pins).HoldsPin triple fingerprint := by
  induction pins generalizing vault with
  | nil => exact held
  | cons entry pins inductionHypothesis =>
    obtain ⟨pin, now⟩ := entry
    simp only [importKnownHosts, foldl_cons]
    simp only [ImportSeated] at seated
    split at seated
    · rename_i pinned
      rw [if_pos pinned]
      exact inductionHypothesis seated held
    · rename_i unpinned
      rw [if_neg unpinned]
      refine inductionHypothesis seated.2
        (holdsPin_of_saves (vault.saves_saveKnownHost pin now) ?_ ?_ held)
      · intro other isPin
        cases isPin
        exact seated.1
      · -- A pin of a triple the vault answered for would have been skipped.
        intro other isPin sameTriple
        cases isPin
        obtain ⟨stored, member, rfl⟩ := known
        simp only [KnownHost.triple, Prod.mk.injEq] at sameTriple
        refine absurd (any_eq_true.mpr ⟨stored, member, ?_⟩) unpinned
        simp [sameTriple]

theorem holdsPin_importVault {vault : VaultStore} {earlier later : List (PinlessSave × Stamp)}
    {pins : List (KnownHost × Stamp)}
    (seated : ImportSeated vault.listKnownHosts (vault.saveUntilRefused earlier).1 pins)
    {triple : String × Nat × String} (held : vault.HoldsPin triple fingerprint) :
    (vault.importVault earlier pins later).HoldsPin triple fingerprint := by
  have known : ∃ pin ∈ vault.listKnownHosts, pin.triple = triple := by
    obtain ⟨pin, member, same, _⟩ := held
    exact ⟨pin, member, same⟩
  have saved := holdsPin_saveUntilRefused earlier held
  simp only [importVault]
  split
  · exact holdsPin_saveUntilRefused later (holdsPin_importKnownHosts known pins seated saved)
  · exact saved

end VaultStore

/-! ### Runs without deletions -/

section Runs

variable {Bytes : Type}

/-- What may bring pins in from elsewhere. -/
inductive PinSource (Bytes : Type) where
  | applyRecords (records : List (SyncRecord Bytes)) (secret : SharedSecret) (now : Nat → Stamp)
  | importVault (earlier : List (PinlessSave × Stamp)) (pins : List (KnownHost × Stamp))
      (later : List (PinlessSave × Stamp))

def VaultStore.receive (codec : Codec Bytes) (vault : VaultStore) :
    PinSource Bytes → VaultStore
  | .applyRecords records secret now =>
    ((applyRecords codec vault records (some secret) now).toOption.map Prod.fst).getD vault
  | .importVault earlier pins later => vault.importVault earlier pins later

def VaultStore.receiveAll (codec : Codec Bytes) (vault : VaultStore)
    (sources : List (PinSource Bytes)) : VaultStore :=
  sources.foldl (VaultStore.receive codec) vault

def PinSource.deletesNothing : PinSource Bytes → Prop
  | .applyRecords records _ _ => ∀ record ∈ records, record.isDeleted = false
  | .importVault .. => True

/-- No pin that is accepted unseats a pin of another triple. -/
def RunSeated (codec : Codec Bytes) : VaultStore → List (PinSource Bytes) → Prop
  | _, [] => True
  | vault, source :: sources =>
    (match source with
      | .applyRecords records secret now => BatchSeated codec secret now vault records
      | .importVault earlier pins _ =>
        VaultStore.ImportSeated vault.listKnownHosts (vault.saveUntilRefused earlier).1 pins) ∧
      RunSeated codec (vault.receive codec source) sources

theorem holdsPin_receiveAll (codec : Codec Bytes) (vault : VaultStore)
    (sources : List (PinSource Bytes)) (live : ∀ source ∈ sources, source.deletesNothing)
    (seated : RunSeated codec vault sources) {triple : String × Nat × String}
    {fingerprint : String} (held : vault.HoldsPin triple fingerprint) :
    (vault.receiveAll codec sources).HoldsPin triple fingerprint := by
  induction sources generalizing vault with
  | nil => exact held
  | cons source sources inductionHypothesis =>
    refine inductionHypothesis _ (fun other member => live other (mem_cons_of_mem _ member))
      seated.2 ?_
    have here := live source (mem_cons_self ..)
    cases source with
    | applyRecords records secret now =>
      simp only [VaultStore.receive]
      cases applied : applyRecords codec vault records (some secret) now with
      | error error => exact held
      | ok outcome => exact holdsPin_applyRecords codec here seated.1 applied held
    | importVault earlier pins later => exact VaultStore.holdsPin_importVault seated.1 held

/-- The pins a vault held before a run of batches and imports are in force after it, and for the
triples it answered for nothing else is. -/
def KeepsPins (codec : Codec Bytes) (vault : VaultStore) (sources : List (PinSource Bytes)) :
    Prop :=
  ∀ triple fingerprint, vault.HoldsPin triple fingerprint →
    ∀ other, (vault.receiveAll codec sources).HoldsPin triple other ↔ other = fingerprint

/-- A run that deletes nothing and unseats no pin re-pins no host. -/
theorem keepsPins_of_run (codec : Codec Bytes) (vault : VaultStore)
    (sources : List (PinSource Bytes)) (live : ∀ source ∈ sources, source.deletesNothing)
    (seated : RunSeated codec vault sources) : KeepsPins codec vault sources := by
  intro triple fingerprint held other
  have after := holdsPin_receiveAll codec vault sources live seated held
  constructor
  · exact fun otherHeld => VaultStore.fingerprint_unique otherHeld after
  · rintro rfl
    exact after

/-! ### The two ways to lose a pin -/

/-- A vault with one pin. -/
def onePin : VaultStore :=
  (VaultStore.empty false true).saveKnownHost ⟨1, "host", 22, "ssh-ed25519", "print", 10, ""⟩ 10

/-- A peer's batch of one pin, not older than any other. -/
def onePinBatch (pin : KnownHost) : PinSource WireTerm :=
  .applyRecords [⟨.knownHost, pin.id, pin.updatedAt, false,
    .sealed "secret" (.json (.knownHost pin))⟩] "secret" fun _ => 30

/-- A pin of another host, from a peer and then from a file, leaves the first one in force. -/
theorem keepsPins_onePin :
    KeepsPins Codec.symbolic onePin
      [onePinBatch ⟨2, "other", 22, "ssh-rsa", "second", 20, ""⟩,
        .importVault [] [(⟨3, "third", 22, "ssh-rsa", "file", 20, ""⟩, 40)] []] := by
  refine keepsPins_of_run Codec.symbolic onePin _ ?_ ⟨?_, ?_, trivial⟩
  · intro source member
    rcases mem_cons.mp member with rfl | later
    · intro record isRecord
      rw [mem_singleton.mp isRecord]
    · rw [mem_singleton.mp later]
      trivial
  · intro meeting member
    rw [mem_singleton.mp member]
    intro _ pin opened _
    cases opened
    decide
  · change VaultStore.ImportSeated _ _ _
    unfold VaultStore.ImportSeated
    rw [if_neg (by decide)]
    exact ⟨by decide, trivial⟩

/-- A pin of another key type on the same hostname and port displaces the stored one, and so does
a pin of another host under the stored one's id. -/
theorem not_keepsPins_onePin :
    ¬ KeepsPins Codec.symbolic onePin
        [onePinBatch ⟨2, "host", 22, "ssh-rsa", "attacker", 20, ""⟩] ∧
      ¬ KeepsPins Codec.symbolic onePin
        [onePinBatch ⟨1, "other", 22, "ssh-ed25519", "attacker", 20, ""⟩] := by
  constructor
  · intro keeps
    exact absurd ((keeps ("host", 22, "ssh-ed25519") "print" (by decide) "print").mpr rfl)
      (by decide)
  · intro keeps
    exact absurd ((keeps ("host", 22, "ssh-ed25519") "print" (by decide) "print").mpr rfl)
      (by decide)

end Runs

end Oryxis

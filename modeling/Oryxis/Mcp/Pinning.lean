/-
This file proves which keys an AI client can have pinned.

A call pins a key that a dial of this process was offered and recorded as unknown, into
the vault of that dial. What keeps it from pinning beside another pin is the second
guard, and that guard is about the vault as it was when it was read: the lock the call
holds keeps this process out until the pin is saved, and nobody else. A pin that the
app saves in between is replaced. Where no one else pins the endpoint in between, no
call ever adds a pin next to another one or changes one.
-/

import Oryxis.Mcp.HostKeys

namespace Oryxis.Mcp

open Library List

/-! ### What a check records -/

theorem refusal_of_hostKeyCheck {pinned : List KnownHost} {offered : HostKey}
    {status : HostKeyStatus} {refusal : Refusal}
    (checked : hostKeyCheck pinned offered = (status, some refusal)) :
    refusal.offered = offered ∧ (refusal.old = none → status = .unknown) := by
  unfold hostKeyCheck at checked
  dsimp only at checked
  split at checked
  · split at checked
    · cases checked
      exact ⟨rfl, nofun⟩
    · cases checked
  · split at checked
    · cases checked
      exact ⟨rfl, nofun⟩
    · cases checked
      exact ⟨rfl, fun _ => rfl⟩

variable {key : HostKey}

/-- A call that passes the first guard names a refusal value for value. -/
theorem offered_of_checkRefusal {log : RefusalLog}
    (passed : checkRefusal (log.get key.host key.port key.keyType) key = .ok ()) :
    ∃ refusal ∈ log.rows, refusal.offered = key ∧ refusal.old = none := by
  cases found : log.get key.host key.port key.keyType with
  | none =>
    rw [found] at passed
    cases passed
  | some refusal =>
    have sameKey : refusal.key = (key.host, key.port, key.keyType) := Table.key_of_get? found
    rw [found, checkRefusal] at passed
    by_cases other : refusal.offered.fingerprint ≠ key.fingerprint
    · rw [if_pos other] at passed
      cases passed
    rw [if_neg other] at passed
    refine ⟨refusal, Table.mem_of_get? found, ?_, ?_⟩
    · simp only [Refusal.key, Prod.mk.injEq] at sameKey
      obtain ⟨host, port, keyType⟩ := sameKey
      show (⟨_, _, _, _⟩ : HostKey) = ⟨_, _, _, _⟩
      rw [host, port, keyType, not_not.mp other]
    · cases old : refusal.old with
      | none => rfl
      | some pinned =>
        rw [old] at passed
        cases passed

variable {pins : List KnownHost}

/-- A call that passes the second guard has seen no pin at the endpoint. -/
theorem pinsAt_of_checkPins (passed : checkPins pins key = .ok false) :
    pinsAt pins key.host key.port = [] := by
  unfold checkPins at passed
  dsimp only at passed
  split at passed
  · split at passed <;> cases passed
  · rename_i noneOfType
    split at passed
    · cases passed
    · rename_i noneOfOther
      refine eq_nil_iff_forall_not_mem.mpr fun pin member => ?_
      have ofType := find?_eq_none.mp noneOfType pin member
      have ofOther := find?_eq_none.mp noneOfOther pin member
      simp only [decide_eq_true_eq] at ofType ofOther
      exact ofOther ofType

variable {pin : KnownHost}

theorem mem_pinsAt {host : String} {port : Nat} :
    pin ∈ pinsAt pins host port ↔ pin ∈ pins ∧ pin.hostname = host ∧ pin.port = port := by
  rw [pinsAt, mem_filter, Bool.and_eq_true, decide_eq_true_eq, decide_eq_true_eq]

/-- A pin saved where its endpoint has none, under a new id, is the only change. -/
theorem mem_listKnownHosts_saveKnownHost {vault : VaultStore} (now : Stamp)
    (free : pinsAt vault.listKnownHosts pin.hostname pin.port = [])
    (new : vault.rowOf (.knownHost, pin.id) = none) (other : KnownHost) :
    other ∈ (vault.saveKnownHost pin now).listKnownHosts ↔
      other = pin ∨ other ∈ vault.listKnownHosts := by
  rw [VaultStore.mem_listKnownHosts, VaultStore.mem_listKnownHosts,
    (vault.saves_saveKnownHost pin now).rowOf]
  by_cases same : other.id = pin.id
  · have sameKey : (EntityType.knownHost, other.id) = (Row.knownHost pin).key :=
      congrArg (Prod.mk EntityType.knownHost) same
    rw [if_pos sameKey, same, new]
    constructor
    · intro isPin
      cases isPin
      exact .inl rfl
    · rintro (rfl | none)
      · rfl
      · cases none
  · rw [if_neg fun equal => same (congrArg Prod.snd equal), Option.filter_eq_some_iff]
    refine ⟨fun found => .inr found.1, ?_⟩
    rintro (rfl | found)
    · exact absurd rfl same
    refine ⟨found, ?_⟩
    have elsewhere : ¬ (other.hostname = pin.hostname ∧ other.port = pin.port) := fun here => by
      have member := mem_pinsAt.mpr ⟨(vault.mem_listKnownHosts other).mpr found, here⟩
      rw [free] at member
      cases member
    have otherKey : (Row.knownHost other).key ≠ (Row.knownHost pin).key := fun equal =>
      same (congrArg Prod.snd equal)
    simp only [Table.displaces, otherKey, Row.endpoint, Option.isSome_some, Option.some.injEq,
      Prod.mk.injEq, elsewhere, decide_false, Bool.and_false, Bool.or_false, Bool.not_false]

/-! ### What every run keeps -/

/-- A pin that a call added: for a key a dial recorded as unknown, into the vault of that dial,
where the endpoint had no pin, and without a change to any other. -/
structure Added.Sound (unknown : List (Nat × HostKey)) (added : Added) : Prop where
  refused : (added.vault, added.key) ∈ unknown
  free : pinsAt added.before.listKnownHosts added.key.host added.key.port = []
  others : ∀ pin ∈ added.before.listKnownHosts, pin ∈ added.after.listKnownHosts
  only : ∀ pin ∈ added.after.listKnownHosts, pin ∉ added.before.listKnownHosts →
    pin.hostname = added.key.host ∧ pin.port = added.key.port ∧
      pin.keyType = added.key.keyType ∧ pin.fingerprint = added.key.fingerprint

/-- The calls pin only keys that were refused as unknown, and never beside another pin. -/
def PinsOnlyRefused (process : Process) : Prop :=
  ∀ added ∈ process.added, added.Sound process.unknown

/-- Where a call is about to save a pin into a vault, its endpoint is free in what is left there. -/
def Call.LeftFree (vault : Nat) (after : VaultStore) : Call → Prop
  | .saving key held => held = vault → pinsAt after.listKnownHosts key.host key.port = []
  | _ => True

instance (vault : Nat) (after : VaultStore) : ∀ call : Call, Decidable (call.LeftFree vault after)
  | .saving key held => inferInstanceAs (Decidable (held = vault → _ = []))
  | .picking _ | .looking _ _ | .reading _ _ | .forgetting _ _ _ | .answered _ => isTrue trivial

/-- Nobody else pins an endpoint between the read and the save of a call for it. -/
def Undisturbed (process : Process) : Action → Prop
  | .others vault _ after => ∀ call ∈ process.calls, call.LeftFree vault after
  | _ => True

instance (process : Process) : ∀ action, Decidable (Undisturbed process action)
  | .others vault _ after =>
    inferInstanceAs (Decidable (∀ call ∈ process.calls, call.LeftFree vault after))
  | .dial _ | .clear _ _ | .offer _ _ | .call _ | .proceed _ _ _ => isTrue trivial

/-- What a call has checked so far. -/
def Call.Checked (unknown : List (Nat × HostKey)) (served : List Served) : Call → Prop
  | .reading key vault => (vault, key) ∈ unknown
  | .saving key vault => (vault, key) ∈ unknown ∧ ∀ one, served[vault]? = some one →
      pinsAt one.vault.listKnownHosts key.host key.port = []
  | _ => True

structure Guarded (process : Process) : Prop where
  recorded : ∀ vault one refusal, process.served[vault]? = some one →
    refusal ∈ one.refusals.rows → refusal.old = none → (vault, refusal.offered) ∈ process.unknown
  checked : ∀ call ∈ process.calls, call.Checked process.unknown process.served
  alone : ∀ vault : Nat, ∀ index other : Nat, ∀ call otherCall : Call, process.calls[index]? = some call →
    process.calls[other]? = some otherCall → call.holds vault = true →
    otherCall.holds vault = true → index = other
  sound : PinsOnlyRefused process

variable {unknown : List (Nat × HostKey)} {served : List Served}

theorem Call.Checked.mono {more : List (Nat × HostKey)} {call : Call}
    (checked : call.Checked unknown served) : call.Checked (unknown ++ more) served := by
  cases call with
  | reading key vault => exact mem_append_left _ checked
  | saving key vault => exact ⟨mem_append_left _ checked.1, checked.2⟩
  | _ => trivial

/-- What a call has checked holds on where the vault it holds keeps its endpoint free. -/
theorem Call.Checked.set {call : Call} (checked : call.Checked unknown served) {vault : Nat}
    {next : Served} (still : ∀ key, call = .saving key vault →
      pinsAt next.vault.listKnownHosts key.host key.port = []) :
    call.Checked unknown (served.set vault next) := by
  cases call with
  | saving key held =>
    refine ⟨checked.1, fun one found => ?_⟩
    rw [getElem?_set] at found
    by_cases same : vault = held
    · subst same
      rw [if_pos rfl] at found
      split at found
      · cases found
        exact still key rfl
      · cases found
    · rw [if_neg same] at found
      exact checked.2 one found
  | reading key held => exact checked
  | _ => trivial

section Keeping

variable {process : Process}

variable {vault : Nat}

/-- A vault is given other refusals, none of them new, or other rows. -/
theorem Guarded.setServed (guarded : Guarded process) {one next : Served}
    (found : process.served[vault]? = some one)
    (recorded : ∀ refusal ∈ next.refusals.rows, refusal.old = none →
      (vault, refusal.offered) ∈ process.unknown)
    (still : ∀ key, .saving key vault ∈ process.calls →
      pinsAt next.vault.listKnownHosts key.host key.port = []) :
    Guarded (process.setServed vault next) where
  recorded other here refusal isHere member unknown := by
    rw [Process.setServed, getElem?_set] at isHere
    by_cases same : vault = other
    · subst same
      rw [if_pos rfl] at isHere
      split at isHere
      · cases isHere
        exact recorded refusal member unknown
      · cases isHere
    · rw [if_neg same] at isHere
      exact guarded.recorded other here refusal isHere member unknown
  checked call member := (guarded.checked call member).set fun key isSaving =>
    still key (isSaving ▸ member)
  alone := guarded.alone
  sound := guarded.sound

variable {index : Nat} {call : Call}

/-- A call goes on without a lock. -/
theorem Guarded.setCall (guarded : Guarded process)
    (checked : call.Checked process.unknown process.served)
    (alone : ∀ vault, call.holds vault = true → ∀ other : Nat, ∀ otherCall : Call,
      process.calls[other]? = some otherCall → otherCall.holds vault = true → other = index) :
    Guarded (process.setCall index call) where
  recorded := guarded.recorded
  checked other member := by
    rcases mem_or_eq_of_mem_set member with old | rfl
    · exact guarded.checked other old
    · exact checked
  alone vault first second one two isOne isTwo holds holdsToo := by
    rw [Process.setCall, getElem?_set] at isOne isTwo
    by_cases isFirst : index = first <;> by_cases isSecond : index = second
    · rw [← isFirst, ← isSecond]
    · rw [if_pos isFirst] at isOne
      rw [if_neg isSecond] at isTwo
      split at isOne
      · cases isOne
        rw [alone vault holds second two isTwo holdsToo, isFirst]
      · cases isOne
    · rw [if_neg isFirst] at isOne
      rw [if_pos isSecond] at isTwo
      split at isTwo
      · cases isTwo
        rw [alone vault holdsToo first one isOne holds, isSecond]
      · cases isTwo
    · rw [if_neg isFirst] at isOne
      rw [if_neg isSecond] at isTwo
      exact guarded.alone vault first second one two isOne isTwo holds holdsToo
  sound := guarded.sound

/-- A call that comes to hold no lock. -/
theorem Guarded.release (guarded : Guarded process)
    (checked : call.Checked process.unknown process.served)
    (holdsNone : ∀ vault, call.holds vault = false) : Guarded (process.setCall index call) :=
  guarded.setCall checked fun vault holds => by
    rw [holdsNone vault] at holds
    cases holds

variable {next : Process}

theorem Guarded.dial (guarded : Guarded process) (stepped : process.dial vault = some next) :
    Guarded next := by
  rw [Process.dial] at stepped
  by_cases free : process.free vault = true
  · rw [if_pos free] at stepped
    obtain ⟨one, _, rfl⟩ := Option.map_eq_some_iff.mp stepped
    exact ⟨guarded.recorded, guarded.checked, guarded.alone, guarded.sound⟩
  · rw [if_neg free] at stepped
    cases stepped

variable {key : HostKey}

theorem Guarded.offer (guarded : Guarded process) {dial : Dial}
    (stepped : process.offer dial key = some next) : Guarded next := by
  obtain ⟨one, found, answered⟩ := Option.map_eq_some_iff.mp stepped
  cases checked : hostKeyCheck dial.pinned key with
  | mk status recorded =>
    cases recorded with
    | none =>
      rw [checked] at answered
      exact answered ▸ guarded
    | some refusal =>
      rw [checked] at answered
      obtain ⟨offered, isUnknown⟩ := refusal_of_hostKeyCheck checked
      subst answered
      let process' : Process := { process with
        unknown := process.unknown ++ if status = .unknown then [(dial.vault, key)] else [] }
      have grown : Guarded process' := by
        refine ⟨fun vault here old isHere member unknown => ?_,
          fun call member => (guarded.checked call member).mono, guarded.alone,
          fun added member => ?_⟩
        · exact mem_append_left _ (guarded.recorded vault here old isHere member unknown)
        · have sound := guarded.sound added member
          exact { sound with refused := mem_append_left _ sound.refused }
      show Guarded (process'.setServed dial.vault
        { one with refusals := one.refusals.record refusal })
      refine grown.setServed found (fun old member unknown => ?_) fun key' isSaving =>
        (guarded.checked _ isSaving).2 one found
      rcases (Table.mem_rows_insertOrReplace one.refusals refusal old).mp member with
        ⟨before, _⟩ | rfl
      · exact grown.recorded dial.vault one old found before unknown
      · refine mem_append_right _ ?_
        rw [if_pos (isUnknown unknown), offered]
        exact mem_singleton.mpr rfl

variable {id : Uuid} {now : Stamp}

theorem Guarded.save (guarded : Guarded process)
    (calling : process.calls[index]? = some (.saving key vault))
    (stepped : process.save index key vault id now = some next) : Guarded next := by
  obtain ⟨one, found, saved⟩ := Option.bind_eq_some_iff.mp stepped
  by_cases taken : (one.vault.rowOf (.knownHost, id)).isSome = true
  · rw [if_pos taken] at saved
    cases saved
  rw [if_neg taken] at saved
  cases saved
  obtain ⟨refused, free⟩ := guarded.checked _ (mem_of_getElem? calling)
  have freeHere := free one found
  have new : one.vault.rowOf (.knownHost, id) = none := by
    cases row : one.vault.rowOf (.knownHost, id) with
    | none => rfl
    | some _ =>
      rw [row] at taken
      exact absurd rfl taken
  have after := mem_listKnownHosts_saveKnownHost now
    (show pinsAt one.vault.listKnownHosts (key.pin id now).hostname (key.pin id now).port = [] from
      freeHere) (show one.vault.rowOf (.knownHost, (key.pin id now).id) = none from new)
  -- the call gives up its lock before the pin is there: no other call holds the vault
  have released : Guarded (process.setCall index (.forgetting key vault false)) :=
    guarded.release trivial fun _ => rfl
  have locked : Guarded ((process.setCall index (.forgetting key vault false)).setServed vault
      { one with vault := one.vault.saveKnownHost (key.pin id now) now }) := by
    refine released.setServed found (guarded.recorded vault one · found) fun other isSaving => ?_
    obtain ⟨place, isThere⟩ := getElem?_of_mem isSaving
    rw [Process.setCall, getElem?_set] at isThere
    split at isThere
    · split at isThere <;> cases isThere
    · rename_i elsewhere
      have holds : ∀ key', (Call.saving key' vault).holds vault = true := fun _ =>
        decide_eq_true rfl
      exact absurd (guarded.alone vault index place _ _ calling isThere (holds key) (holds other))
        elsewhere
  refine ⟨locked.recorded, locked.checked, locked.alone, fun added member => ?_⟩
  rcases mem_append.mp member with before | last
  · exact guarded.sound added before
  · rw [mem_singleton.mp last]
    refine ⟨refused, freeHere, fun pin before => (after pin).mpr (.inr before),
      fun pin member absent => ?_⟩
    rcases (after pin).mp member with rfl | before
    · exact ⟨rfl, rfl, rfl, rfl⟩
    · exact absurd before absent

theorem Guarded.proceed (guarded : Guarded process) (calling : process.calls[index]? = some call)
    (stepped : process.proceed index id now call = some next) : Guarded next := by
  cases call with
  | picking params =>
    rw [Process.proceed] at stepped
    cases picked : pickVault process.served params with
    | error error =>
      rw [picked] at stepped
      cases stepped
      exact guarded.release trivial fun _ => rfl
    | ok picked' =>
      rw [picked] at stepped
      cases stepped
      exact guarded.release trivial fun _ => rfl
  | looking key vault =>
    obtain ⟨one, found, rfl⟩ := Option.map_eq_some_iff.mp stepped
    cases passed : checkRefusal (one.refusals.get key.host key.port key.keyType) key with
    | error error => exact guarded.release trivial fun _ => rfl
    | ok done =>
      obtain ⟨refusal, member, rfl, unknown⟩ := offered_of_checkRefusal passed
      exact guarded.release (guarded.recorded vault one refusal found member unknown) fun _ => rfl
  | reading key vault =>
    rw [Process.proceed] at stepped
    by_cases free : process.free vault = true
    · rw [if_pos free] at stepped
      obtain ⟨one, found, rfl⟩ := Option.map_eq_some_iff.mp stepped
      cases passed : checkPins one.vault.listKnownHosts key with
      | error error => exact guarded.release trivial fun _ => rfl
      | ok pinned =>
        cases pinned with
        | true => exact guarded.release trivial fun _ => rfl
        | false =>
          refine guarded.setCall ⟨guarded.checked _ (mem_of_getElem? calling),
            fun other isOther => ?_⟩ fun held holds place other isThere holdsToo => ?_
          · rw [found] at isOther
            cases isOther
            exact pinsAt_of_checkPins passed
          · have same : vault = held := of_decide_eq_true holds
            have notHeld := all_eq_true.mp free other (mem_of_getElem? isThere)
            rw [same, holdsToo] at notHeld
            cases notHeld
    · rw [if_neg free] at stepped
      cases stepped
  | saving key vault => exact guarded.save calling stepped
  | forgetting key vault already =>
    obtain ⟨one, found, rfl⟩ := Option.map_eq_some_iff.mp stepped
    have forgotten : Guarded (process.setServed vault
        { one with refusals := one.refusals.remove key.host key.port key.keyType }) :=
      guarded.setServed found (fun refusal member =>
        guarded.recorded vault one refusal found ((Table.mem_rows_deleteWhere _ _ _).mp member).1)
        fun other isSaving => (guarded.checked _ isSaving).2 one found
    exact forgotten.release trivial fun _ => rfl
  | answered result => cases stepped

theorem Guarded.step (guarded : Guarded process) {action : Action}
    (undisturbed : Undisturbed process action) (stepped : process.step action = some next) :
    Guarded next := by
  cases action with
  | dial vault => exact guarded.dial stepped
  | clear vault endpoints =>
    obtain ⟨one, found, rfl⟩ := Option.map_eq_some_iff.mp stepped
    exact guarded.setServed found (fun refusal member =>
      guarded.recorded vault one refusal found ((Table.mem_rows_deleteWhere _ _ _).mp member).1)
      fun other isSaving => (guarded.checked _ isSaving).2 one found
  | offer dial key =>
    obtain ⟨asked, _, answered⟩ := Option.bind_eq_some_iff.mp stepped
    exact guarded.offer answered
  | call params =>
    cases stepped
    refine ⟨guarded.recorded, fun call member => ?_, fun vault first second one two isOne isTwo
      holds holdsToo => ?_, guarded.sound⟩
    · rcases mem_append.mp member with old | new
      · exact guarded.checked call old
      · rw [mem_singleton.mp new]
        trivial
    · have old : ∀ place : Nat, ∀ call : Call, (process.calls ++ [.picking params])[place]? = some call →
          call.holds vault = true → process.calls[place]? = some call := by
        intro place call isThere holding
        rw [getElem?_append] at isThere
        split at isThere
        · exact isThere
        · have last := mem_singleton.mp (mem_of_getElem? isThere)
          rw [last] at holding
          cases holding
      exact guarded.alone vault first second one two (old first one isOne holds)
        (old second two isTwo holdsToo) holds holdsToo
  | proceed index id now =>
    obtain ⟨call, calling, went⟩ := Option.bind_eq_some_iff.mp stepped
    exact guarded.proceed calling went
  | others vault enabled after =>
    obtain ⟨one, found, rfl⟩ := Option.map_eq_some_iff.mp stepped
    exact guarded.setServed found (guarded.recorded vault one · found) fun key isSaving =>
      undisturbed _ isSaving rfl

end Keeping

/-- A process that has dialled nothing has nothing to guard. -/
theorem guarded_start (vaults : List (String × Bool × VaultStore)) :
    Guarded (Process.start vaults) where
  recorded vault one refusal found member := by
    obtain ⟨_, _, rfl⟩ := mem_map.mp (mem_of_getElem? found)
    cases member
  checked _ member := nomatch member
  alone _ _ _ _ _ isOne := nomatch isOne
  sound _ member := nomatch member

/-- In every run in which nobody else pins an endpoint between the read and the save of a call for
it, the calls pin only what a dial recorded as unknown, and never beside another pin. -/
theorem pinsOnlyRefused_of_run {vaults : List (String × Bool × VaultStore)} {actions : List Action}
    {final : Process}
    (along : Process.machine.Along Undisturbed (Process.start vaults) actions)
    (ran : Process.machine.run (Process.start vaults) actions = some final) :
    PinsOnlyRefused final :=
  (Machine.invariant (fun _ _ _ guarded undisturbed stepped => guarded.step undisturbed stepped)
    (guarded_start vaults) along ran : Guarded final).sound

/-- One vault without a pin. -/
def oneVault : List (String × Bool × VaultStore) :=
  [("personal", true, VaultStore.empty false false)]

def offeredKey : HostKey := ⟨"10.0.0.5", 22, "ssh-ed25519", "SHA256:interceptor"⟩

def ownPin : KnownHost := ⟨1, "10.0.0.5", 22, "ssh-ed25519", "SHA256:own", 5, ""⟩

/-- A key is refused, the client has it accepted, and the app pins the host's own key between the
read and the save. -/
def pinnedBetween : List Action :=
  [.dial 0, .offer 0 offeredKey,
    .call ⟨some "10.0.0.5", some "ssh-ed25519", some "SHA256:interceptor", some 22, none⟩,
    .proceed 0 2 6, .proceed 0 2 6, .proceed 0 2 6,
    .others 0 true ((VaultStore.empty false false).saveKnownHost ownPin 5), .proceed 0 2 6]

/-- The pin the app saved is replaced by the one that was refused. -/
theorem not_pinsOnlyRefused_pinnedBetween :
    ¬ ∀ final, Process.machine.run (Process.start oneVault) pinnedBetween = some final →
      PinsOnlyRefused final := by
  intro always
  have lost : (Process.machine.run (Process.start oneVault) pinnedBetween).any (fun final =>
      final.added.any fun added => added.before.listKnownHosts.contains ownPin &&
        !added.after.listKnownHosts.contains ownPin) = true := by
    decide +kernel
  obtain ⟨final, ran, someAdded⟩ := (Option.any_eq_true _ _).mp lost
  obtain ⟨added, member, gone⟩ := any_eq_true.mp someAdded
  rw [Bool.and_eq_true, Bool.not_eq_true', contains_iff_mem] at gone
  have kept := (always final ran added member).others ownPin gone.1
  rw [← contains_iff_mem, gone.2] at kept
  cases kept

/-- Where the app pins another host in between, the call is undisturbed and pins what was
refused. -/
def pinnedElsewhere : List Action :=
  [.dial 0, .offer 0 offeredKey,
    .call ⟨some "10.0.0.5", some "ssh-ed25519", some "SHA256:interceptor", some 22, none⟩,
    .proceed 0 2 6, .proceed 0 2 6, .proceed 0 2 6,
    .others 0 true ((VaultStore.empty false false).saveKnownHost
      { ownPin with hostname := "10.0.0.6" } 5), .proceed 0 2 6]

theorem pinsOnlyRefused_pinnedElsewhere : ∃ final,
    Process.machine.run (Process.start oneVault) pinnedElsewhere = some final ∧
      PinsOnlyRefused final ∧ final.added.length = 1 := by
  have added : (Process.machine.run (Process.start oneVault) pinnedElsewhere).any (fun final =>
      final.added.length = 1) = true := by
    decide +kernel
  obtain ⟨final, ran, one⟩ := (Option.any_eq_true _ _).mp added
  exact ⟨final, ran, pinsOnlyRefused_of_run (by decide +kernel) ran, of_decide_eq_true one⟩

end Oryxis.Mcp

/-
This file is the remote forwards of one shared connection: the table from a bind to the
drain of the session that asked for it, the sessions that come and go, and the channels
the server opens for the binds it has granted.

A route is registered before the bind is asked for and removed under its bind: on a
refusal, on every cancel and once more when the session is dropped. Between the removals
of one session another may register the same bind, and then the later removal takes the
other's route. A channel goes to the route under the very name it comes with, else to the
only route on its port: which need not be a route of the rule that asked for the bind,
once that rule's own route is gone, or another rule stands under the name.
-/

import Mathlib.Data.List.Nodup
import Oryxis.Library.Machine

namespace Oryxis.Ssh

open Library List

/-! ### The routing table -/

abbrev Bind := String × UInt16

/-- At most one route for each bind. -/
structure RemoteRoutes (Sink : Type) where
  entries : List (Bind × Sink)
  distinct : (entries.map Prod.fst).Nodup

namespace RemoteRoutes

variable {Sink : Type} (routes : RemoteRoutes Sink)

def empty : RemoteRoutes Sink := ⟨[], nodup_nil⟩

def get (key : Bind) : Option Sink :=
  (routes.entries.find? fun route => route.1 = key).map Prod.snd

def containsKey (key : Bind) : Bool := (routes.get key).isSome

def remove (key : Bind) : RemoteRoutes Sink where
  entries := routes.entries.filter fun route => route.1 ≠ key
  distinct := routes.distinct.sublist (filter_sublist.map Prod.fst)

def insert (key : Bind) (sink : Sink) : RemoteRoutes Sink where
  entries := (routes.remove key).entries ++ [(key, sink)]
  distinct := by
    rw [map_append]
    refine nodup_append.mpr ⟨(routes.remove key).distinct, pairwise_singleton _ _, ?_⟩
    intro kept isKept new isNew
    obtain ⟨route, listed, rfl⟩ := mem_map.mp isKept
    have other := (mem_filter.mp listed).2
    rw [map_singleton, mem_singleton] at isNew
    rw [isNew]
    exact of_decide_eq_true other

/-- The route under the very address and port, else the only one on the port. -/
def routeLookup (addr : String) (port : UInt16) : Option Sink :=
  match routes.get (addr, port) with
  | some sink => some sink
  | none =>
    match routes.entries.filter fun route => route.1.2 = port with
    | [(_, sink)] => some sink
    | _ => none

theorem get_eq_some_iff {key : Bind} {sink : Sink} :
    routes.get key = some sink ↔ (key, sink) ∈ routes.entries := by
  have distinct := routes.distinct
  rw [get, Option.map_eq_some_iff]
  constructor
  · rintro ⟨⟨found, value⟩, isFound, rfl⟩
    have named : found = key := by simpa using find?_some isFound
    exact named ▸ mem_of_find?_eq_some isFound
  · intro listed
    cases isFound : routes.entries.find? fun route => route.1 = key with
    | none =>
      exact absurd (decide_eq_true rfl) (find?_eq_none.mp isFound (key, sink) listed)
    | some found =>
      have named : found.1 = key := by simpa using find?_some isFound
      have same : found = (key, sink) :=
        inj_on_of_nodup_map distinct (mem_of_find?_eq_some isFound) listed named
      exact ⟨found, rfl, by rw [same]⟩

theorem get_remove (key other : Bind) :
    (routes.remove key).get other = if other = key then none else routes.get other := by
  refine Option.ext fun sink => ?_
  rw [get_eq_some_iff, remove]
  simp only [mem_filter, decide_eq_true_eq]
  split
  case isTrue same => simp [same]
  case isFalse differs => rw [get_eq_some_iff]; simp [differs]

theorem get_insert (key other : Bind) (sink : Sink) :
    (routes.insert key sink).get other = if other = key then some sink else routes.get other := by
  refine Option.ext fun value => ?_
  rw [get_eq_some_iff, insert, mem_append, ← get_eq_some_iff, get_remove]
  split
  case isTrue same => simp [same, eq_comm]
  case isFalse differs => simp [differs]

end RemoteRoutes

/-! ### Sessions on the connection -/

/-- Where the attach of a session is, or what has become of the session. -/
inductive Stage where
  | requesting
  | failed
  | live
  | cancelled
  | dropped
  deriving DecidableEq, Repr

/-- What the server has made of the bind. -/
inductive Listener where
  | asked
  | denied
  | listening
  | released
  deriving DecidableEq, Repr

/-- A session: the rule it is for, its bind, and whether it has asked for the bind's release. -/
structure ForwardSession where
  rule : Nat
  bind : Bind
  stage : Stage
  listener : Listener
  releasing : Bool
  deriving DecidableEq, Repr

/-- The table, the sessions, and for each channel that was accepted the rule that asked for its bind
and the rule whose drain it was handed to. -/
structure ForwardConn where
  routes : RemoteRoutes Nat
  sessions : List ForwardSession
  handed : List (Nat × Option Nat)

def ForwardConn.start : ForwardConn := ⟨.empty, [], []⟩

namespace ForwardConn

variable (conn : ForwardConn)

def setSession (index : Nat) (session : ForwardSession) : ForwardConn :=
  { conn with sessions := conn.sessions.set index session }

/-- The first lock of an attach: a bind that is registered is refused. -/
def attach (rule : Nat) (bind : Bind) : ForwardConn :=
  if conn.routes.containsKey bind then
    { conn with sessions := conn.sessions ++ [⟨rule, bind, .failed, .denied, false⟩] }
  else
    { conn with
      routes := conn.routes.insert bind conn.sessions.length
      sessions := conn.sessions ++ [⟨rule, bind, .requesting, .asked, false⟩] }

def ruleOf (sink : Nat) : Option Nat := conn.sessions[sink]?.map ForwardSession.rule

def removeRemoteRoute (session : ForwardSession) : ForwardConn :=
  { conn with routes := conn.routes.remove session.bind }

end ForwardConn

inductive ForwardAction where
  | attach (rule : Nat) (bind : Bind)
  | answer (index : Nat) (granted : Bool)
  | succeed (index : Nat)
  | fail (index : Nat)
  | cancel (index : Nat)
  | drop (index : Nat)
  | release (index : Nat)
  | inbound (index : Nat) (addr : String)

def Stage.isUp : Stage → Bool
  | .live | .cancelled => true
  | .requesting | .failed | .dropped => false

/-- One lock section, one answer of the server or one channel at a time. The server opens channels for
a bind from granting it until it has released it, under whatever address it says. -/
def forwarding : Machine ForwardConn ForwardAction where
  step conn action :=
    match action with
    | .attach rule bind => some (conn.attach rule bind)
    | .answer index granted => conn.sessions[index]?.bind fun session =>
      if session.listener = .asked then
        some (conn.setSession index
          { session with listener := if granted then .listening else .denied })
      else none
    | .succeed index => conn.sessions[index]?.bind fun session =>
      if session.stage = .requesting ∧ session.listener ≠ .asked ∧ session.listener ≠ .denied then
        some (conn.setSession index { session with stage := .live })
      else none
    | .fail index => conn.sessions[index]?.bind fun session =>
      if session.stage = .requesting then
        some ((conn.removeRemoteRoute session).setSession index { session with stage := .failed })
      else none
    | .cancel index => conn.sessions[index]?.bind fun session =>
      if session.stage.isUp then
        some ((conn.removeRemoteRoute session).setSession index
          { session with stage := .cancelled, releasing := true })
      else none
    | .drop index => conn.sessions[index]?.bind fun session =>
      if session.stage.isUp then
        some ((conn.removeRemoteRoute session).setSession index { session with stage := .dropped })
      else none
    | .release index => conn.sessions[index]?.bind fun session =>
      if session.listener = .listening ∧ conn.sessions.any fun other =>
          other.bind = session.bind && other.releasing then
        some (conn.setSession index { session with listener := .released })
      else none
    | .inbound index addr => conn.sessions[index]?.bind fun session =>
      if session.listener = .listening then
        match conn.routes.routeLookup addr session.bind.2 with
        | some sink => some { conn with handed := conn.handed ++ [(session.rule, conn.ruleOf sink)] }
        | none => some conn
      else none

/-! ### What should hold -/

/-- Every channel that was accepted went to the rule that asked for its bind. -/
def Uncrossed (conn : ForwardConn) : Prop := ∀ pair ∈ conn.handed, pair.2 = some pair.1

/-- Every session whose attach has succeeded, and that was not cancelled or dropped since, has its
route in the table. -/
def Routed (conn : ForwardConn) : Prop :=
  ∀ (index : Nat) (session : ForwardSession), conn.sessions[index]? = some session →
    session.stage = .live → conn.routes.get session.bind = some index

/-- The bind whose route an action removes. -/
def removedBy (conn : ForwardConn) : ForwardAction → Option (Nat × Bind)
  | .fail index | .cancel index | .drop index =>
    conn.sessions[index]?.map fun session => (index, session.bind)
  | .attach .. | .answer .. | .succeed _ | .release _ | .inbound .. => none

/-- A removal takes the session's own route, or none. -/
def TakesOwn (conn : ForwardConn) (action : ForwardAction) : Prop :=
  ∀ removal ∈ removedBy conn action, ∀ sink ∈ conn.routes.get removal.2, sink = removal.1

instance (conn : ForwardConn) (action : ForwardAction) : Decidable (TakesOwn conn action) :=
  inferInstanceAs (Decidable (∀ removal ∈ removedBy conn action,
    ∀ sink ∈ conn.routes.get removal.2, sink = removal.1))

/-- For a bind of the rule, on the port: under the name of the channel stands no route of another
rule; and where none stands there, the rule has a route on the port, or the port has not just
one. -/
def ForwardConn.Unmistaken (conn : ForwardConn) (rule : Nat) (addr : String) (port : UInt16) : Prop :=
  match conn.routes.get (addr, port) with
  | some sink => conn.ruleOf sink = some rule
  | none =>
    (∃ route ∈ conn.routes.entries, route.1.2 = port ∧ conn.ruleOf route.2 = some rule) ∨
      (conn.routes.entries.filter fun route => route.1.2 = port).length ≠ 1

instance (conn : ForwardConn) (rule : Nat) (addr : String) (port : UInt16) :
    Decidable (conn.Unmistaken rule addr port) :=
  match found : conn.routes.get (addr, port) with
  | some sink => decidable_of_iff (conn.ruleOf sink = some rule) (by
      rw [ForwardConn.Unmistaken, found])
  | none => decidable_of_iff
      ((∃ route ∈ conn.routes.entries, route.1.2 = port ∧ conn.ruleOf route.2 = some rule) ∨
        (conn.routes.entries.filter fun route => route.1.2 = port).length ≠ 1) (by
      rw [ForwardConn.Unmistaken, found])

/-- A channel cannot be taken for another rule's. -/
def NamesItsRule (conn : ForwardConn) : ForwardAction → Prop
  | .inbound index addr => ∀ session ∈ conn.sessions[index]?,
    session.listener = .listening → conn.Unmistaken session.rule addr session.bind.2
  | .attach .. | .answer .. | .succeed _ | .fail _ | .cancel _ | .drop _ | .release _ => True

instance (conn : ForwardConn) : (action : ForwardAction) → Decidable (NamesItsRule conn action)
  | .inbound index addr => inferInstanceAs (Decidable (∀ session ∈ conn.sessions[index]?,
      session.listener = .listening → conn.Unmistaken session.rule addr session.bind.2))
  | .attach .. | .answer .. | .succeed _ | .fail _ | .cancel _ | .drop _ | .release _ =>
    inferInstanceAs (Decidable True)

/-! ### Channels -/

/-- A lookup finds a route of the rule, or none, exactly where the channel cannot be mistaken. -/
theorem ForwardConn.unmistaken_iff (conn : ForwardConn) (rule : Nat) (addr : String)
    (port : UInt16) :
    conn.Unmistaken rule addr port ↔
      ∀ sink ∈ conn.routes.routeLookup addr port, conn.ruleOf sink = some rule := by
  rw [Unmistaken, RemoteRoutes.routeLookup]
  cases exactly : conn.routes.get (addr, port) with
  | some sink => simp
  | none =>
    have listed (route : Bind × Nat) : route ∈ conn.routes.entries ∧ route.1.2 = port ↔
        route ∈ conn.routes.entries.filter fun route => route.1.2 = port := by
      rw [mem_filter, decide_eq_true_eq]
    cases onPort : conn.routes.entries.filter fun route => route.1.2 = port with
    | nil => simp
    | cons first rest =>
      rw [onPort] at listed
      cases rest with
      | nil =>
        simp only [Option.mem_def, Option.some.injEq, forall_eq']
        constructor
        · rintro (⟨route, isListed, isPort, own⟩ | several)
          · rw [mem_singleton.mp ((listed route).mp ⟨isListed, isPort⟩)] at own
            exact own
          · exact absurd (show [first].length = 1 from rfl) several
        · intro own
          obtain ⟨isListed, isPort⟩ := (listed first).mpr (mem_singleton_self first)
          exact .inl ⟨first, isListed, isPort, own⟩
      | cons second others => simp

/-! ### What a step does -/

/-- An attach that goes on, or has succeeded and was not undone. -/
def Stage.keepsRoute : Stage → Bool
  | .requesting | .live => true
  | .failed | .cancelled | .dropped => false

/-- The session that was there changes, but neither its rule nor its bind; what has lost its route
does not come to have it. -/
structure Changes (session changed : ForwardSession) : Prop where
  rule : changed.rule = session.rule
  bind : changed.bind = session.bind
  stage : changed.stage.keepsRoute → session.stage.keepsRoute

/-- A step registers a session, changes one, changes one and removes its route, or hands a channel
to a drain or to none. -/
inductive StepOf (conn : ForwardConn) : ForwardAction → ForwardConn → Prop where
  | attached (rule : Nat) (bind : Bind) : StepOf conn (.attach rule bind) (conn.attach rule bind)
  | changed {action : ForwardAction} {index : Nat} {session changed : ForwardSession}
      (known : conn.sessions[index]? = some session) (changes : Changes session changed)
      (elsewhere : NamesItsRule conn action) : StepOf conn action (conn.setSession index changed)
  | removed {action : ForwardAction} {index : Nat} {session changed : ForwardSession}
      (known : conn.sessions[index]? = some session) (lost : changed.stage.keepsRoute = false)
      (removes : removedBy conn action = some (index, session.bind))
      (elsewhere : NamesItsRule conn action) :
      StepOf conn action ((conn.removeRemoteRoute session).setSession index changed)
  | handed {index : Nat} {addr : String} {session : ForwardSession}
      (known : conn.sessions[index]? = some session) (listening : session.listener = .listening) :
      StepOf conn (.inbound index addr) { conn with
        handed := conn.handed ++ (conn.routes.routeLookup addr session.bind.2).toList.map fun sink =>
          (session.rule, conn.ruleOf sink) }

variable {next : ForwardConn}

theorem guarded_eq_some {sessions : Option ForwardSession} {guard : ForwardSession → Prop}
    [DecidablePred guard] {moved : ForwardSession → ForwardConn} :
    (sessions.bind fun session => if guard session then some (moved session) else none) =
        some next ↔
      ∃ session, sessions = some session ∧ guard session ∧ moved session = next := by
  rw [Option.bind_eq_some_iff]
  refine exists_congr fun session => and_congr_right fun _ => ?_
  by_cases met : guard session <;> simp [met]

variable {index : Nat} {session : ForwardSession}

theorem removedBy_of_known {conn : ForwardConn} (known : conn.sessions[index]? = some session) :
    (conn.sessions[index]?.map fun session => (index, session.bind)) =
      some (index, session.bind) := by
  rw [known]
  rfl

variable {action : ForwardAction}

theorem stepOf {conn : ForwardConn} (stepped : forwarding.step conn action = some next) :
    StepOf conn action next := by
  cases action with
  | attach rule bind =>
    cases stepped
    exact .attached rule bind
  | answer index granted =>
    obtain ⟨session, known, _, rfl⟩ := guarded_eq_some.mp stepped
    exact .changed known ⟨rfl, rfl, id⟩ trivial
  | succeed index =>
    obtain ⟨session, known, requesting, rfl⟩ := guarded_eq_some.mp stepped
    exact .changed known ⟨rfl, rfl, fun _ => by rw [requesting.1]; rfl⟩ trivial
  | fail index =>
    obtain ⟨session, known, _, rfl⟩ := guarded_eq_some.mp stepped
    exact .removed known rfl (removedBy_of_known known) trivial
  | cancel index =>
    obtain ⟨session, known, _, rfl⟩ := guarded_eq_some.mp stepped
    exact .removed known rfl (removedBy_of_known known) trivial
  | drop index =>
    obtain ⟨session, known, _, rfl⟩ := guarded_eq_some.mp stepped
    exact .removed known rfl (removedBy_of_known known) trivial
  | release index =>
    obtain ⟨session, known, _, rfl⟩ := guarded_eq_some.mp stepped
    exact .changed known ⟨rfl, rfl, id⟩ trivial
  | inbound index addr =>
    obtain ⟨session, known, moved⟩ := Option.bind_eq_some_iff.mp stepped
    split at moved
    case isFalse => cases moved
    case isTrue listening =>
      have handed : StepOf conn (.inbound index addr) _ := StepOf.handed known listening
      cases found : conn.routes.routeLookup addr session.bind.2 with
      | none =>
        rw [found] at moved handed
        cases moved
        simpa using handed
      | some sink =>
        rw [found] at moved handed
        cases moved
        exact handed

/-! ### One step -/

theorem uncrossed_step {conn : ForwardConn} (stepped : forwarding.step conn action = some next) :
    Uncrossed next ↔ Uncrossed conn ∧ NamesItsRule conn action := by
  cases stepOf stepped with
  | attached rule bind =>
    refine Iff.trans ?_ (and_iff_left trivial).symm
    rw [Uncrossed, Uncrossed, ForwardConn.attach]
    split <;> exact Iff.rfl
  | changed _ _ elsewhere => exact (and_iff_left elsewhere).symm
  | removed _ _ _ elsewhere => exact (and_iff_left elsewhere).symm
  | handed known listening =>
    rename_i index addr session
    have names : NamesItsRule conn (.inbound index addr) ↔
        ∀ sink ∈ conn.routes.routeLookup addr session.bind.2,
          conn.ruleOf sink = some session.rule := by
      rw [NamesItsRule, known, ← conn.unmistaken_iff]
      simp [listening]
    rw [names]
    cases conn.routes.routeLookup addr session.bind.2 <;>
      simp [Uncrossed, or_imp, forall_and]

/-- The sessions that are to have a route have it. -/
def Holding (conn : ForwardConn) : Prop :=
  ∀ (index : Nat) (session : ForwardSession), conn.sessions[index]? = some session →
    session.stage.keepsRoute → conn.routes.get session.bind = some index

theorem Holding.routed {conn : ForwardConn} (holding : Holding conn) : Routed conn :=
  fun index session known live => holding index session known (by rw [live]; rfl)

theorem Holding.attach {conn : ForwardConn} (holding : Holding conn) (rule : Nat) (bind : Bind) :
    Holding (conn.attach rule bind) := by
  rw [ForwardConn.attach]
  split
  case isTrue =>
    intro index session known keeps
    rw [getElem?_append] at known
    split at known
    · exact holding index session known keeps
    · rw [getElem?_singleton] at known
      split at known <;> cases known
      cases keeps
  case isFalse fresh =>
    intro index session known keeps
    rw [RemoteRoutes.get_insert]
    rw [getElem?_append] at known
    split at known
    case isTrue =>
      have held := holding index session known keeps
      have other : session.bind ≠ bind := fun same =>
        fresh (by rw [RemoteRoutes.containsKey, ← same, held]; rfl)
      rw [if_neg other]
      exact held
    case isFalse late =>
      rw [getElem?_singleton] at known
      split at known <;> cases known
      rw [if_pos rfl]
      congr 1
      omega

theorem Holding.changed {conn : ForwardConn} (holding : Holding conn) {index : Nat}
    {session changed : ForwardSession} (known : conn.sessions[index]? = some session)
    (changes : Changes session changed) : Holding (conn.setSession index changed) := by
  intro other found isFound keeps
  rw [ForwardConn.setSession, getElem?_set] at isFound
  split at isFound
  case isTrue same =>
    split at isFound <;> cases isFound
    rw [changes.bind, ← same]
    exact holding index session known (changes.stage keeps)
  case isFalse => exact holding other found isFound keeps

theorem Holding.removed {conn : ForwardConn} (holding : Holding conn) {changed : ForwardSession}
    (lost : changed.stage.keepsRoute = false)
    (own : ∀ sink ∈ conn.routes.get session.bind, sink = index) :
    Holding ((conn.removeRemoteRoute session).setSession index changed) := by
  intro other found isFound keeps
  rw [ForwardConn.setSession, getElem?_set] at isFound
  split at isFound
  case isTrue same =>
    split at isFound <;> cases isFound
    rw [lost] at keeps
    cases keeps
  case isFalse differs =>
    have held := holding other found isFound keeps
    have elsewhere : found.bind ≠ session.bind := fun same =>
      differs (own other (by rw [← same]; exact held)).symm
    show (conn.routes.remove session.bind).get found.bind = some other
    rw [RemoteRoutes.get_remove, if_neg elsewhere]
    exact held

theorem Holding.step {conn : ForwardConn} (holding : Holding conn) (own : TakesOwn conn action)
    (stepped : forwarding.step conn action = some next) :
    Holding next := by
  cases stepOf stepped with
  | attached rule bind => exact holding.attach rule bind
  | changed known changes _ => exact holding.changed known changes
  | removed known lost removes _ => exact holding.removed lost (own _ removes)
  | handed known _ => exact holding

/-! ### Whole runs -/

/-- In every run channels go to the rule that asked for their bind exactly where none can be taken for
another rule's; and where every removal takes the session's own route or none, every session that is
up has its route. -/
theorem routed_and_uncrossed_of_run {final : ForwardConn} {actions : List ForwardAction}
    (ran : forwarding.run .start actions = some final) :
    (forwarding.Along TakesOwn .start actions → Routed final) ∧
      (Uncrossed final ↔ forwarding.Along NamesItsRule .start actions) := by
  constructor
  · intro along
    have start : Holding .start := fun _ _ none => by cases none
    exact (Machine.invariant (fun _ _ _ holding own stepped => Holding.step holding own stepped)
      start along ran).routed
  · have start : Uncrossed .start := fun _ none => by cases none
    have judged := Machine.verdict_iff_along
      (fun _ _ _ (known : True) _ => known)
      (fun _ _ _ _ stepped => uncrossed_step stepped) trivial ran
    exact judged.trans (and_iff_right start)

/-- Two rules come up and a channel comes for each, under the name that was asked for and under
another; then the first goes. -/
def twoRules : List ForwardAction :=
  [.attach 1 ("localhost", 8080), .answer 0 true, .succeed 0, .attach 2 ("192.168.0.5", 9000),
    .answer 1 true, .succeed 1, .inbound 0 "::1", .inbound 1 "192.168.0.5", .cancel 0, .release 0,
    .drop 0, .inbound 1 "192.168.0.5"]

theorem routed_and_uncrossed_twoRules : ∃ final,
    forwarding.run .start twoRules = some final ∧ Routed final ∧ Uncrossed final := by
  have ends : (forwarding.run .start twoRules).isSome = true := by decide +kernel
  obtain ⟨final, ran⟩ := Option.isSome_iff_exists.mp ends
  have both := routed_and_uncrossed_of_run ran
  exact ⟨final, ran, both.1 (by decide +kernel), both.2.mpr (by decide +kernel)⟩

/-- A rule takes the bind of one that was cancelled, and the session of that one is dropped after. -/
def takenOnDrop : List ForwardAction :=
  [.attach 1 ("127.0.0.1", 8080), .answer 0 true, .succeed 0, .cancel 0,
    .attach 2 ("127.0.0.1", 8080), .release 0, .answer 1 true, .succeed 1, .drop 0]

/-- A rule is cancelled, and before the server has released its bind a channel comes for it. -/
def takenByPort : List ForwardAction :=
  [.attach 1 ("127.0.0.1", 8080), .answer 0 true, .succeed 0, .attach 2 ("192.168.0.5", 8080),
    .answer 1 true, .succeed 1, .cancel 0, .inbound 0 "127.0.0.1"]

/-- A live rule without its route, and a channel of one rule in the drain of another. -/
theorem not_routed_not_uncrossed :
    (∃ final, forwarding.run .start takenOnDrop = some final ∧ ¬Routed final) ∧
      ∃ final, forwarding.run .start takenByPort = some final ∧ ¬Uncrossed final := by
  constructor
  · have ends : (forwarding.run .start takenOnDrop).any (fun final =>
        final.sessions[1]? = some ⟨2, ("127.0.0.1", 8080), .live, .listening, false⟩ ∧
          final.routes.get ("127.0.0.1", 8080) = none) = true := by
      decide +kernel
    obtain ⟨final, ran, lost⟩ := (Option.any_eq_true _ _).mp ends
    obtain ⟨known, none⟩ := of_decide_eq_true lost
    refine ⟨final, ran, fun routed => ?_⟩
    have held := routed 1 _ known rfl
    rw [none] at held
    cases held
  · have ends : (forwarding.run .start takenByPort).any (fun final =>
        final.handed = [(1, some 2)]) = true := by
      decide +kernel
    obtain ⟨final, ran, crossed⟩ := (Option.any_eq_true _ _).mp ends
    refine ⟨final, ran, fun uncrossed => ?_⟩
    have own := uncrossed (1, some 2) (by rw [of_decide_eq_true crossed]; exact mem_cons_self)
    exact absurd own (by decide)

end Oryxis.Ssh

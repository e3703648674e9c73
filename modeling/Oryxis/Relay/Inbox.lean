/-
This file is the relay's inboxes: frames in the order they were pushed, and the
consumers that wait for them.

A consumer looks into the inbox under the lock, and where it finds nothing it takes the
inbox's wake-up object with it and sleeps on that. What is lost on the way is never a
frame: each leaves the inbox from the front, to one consumer, as expired, or to make
room. It is a wake-up: the sweep drops an empty inbox while a consumer still goes by its
wake-up object, a permit that is stored already cannot be stored twice, and a consumer
that was woken may be cancelled before it looks. Where none of these happens, no
consumer sleeps beside a frame that nobody is about to take.
-/

import Mathlib.Data.List.Nodup
import Oryxis.Library.Picks
import Oryxis.Relay.Devices

namespace Oryxis.Relay

open Function Library List

/-! ### The registry -/

/-- A frame, and the number of its push among those of its recipient. -/
structure QueueEntry where
  senderId : Uuid
  body : List UInt8
  insertedAt : Nat
  serial : Nat
  deriving DecidableEq, Repr

/-- The queue of a recipient, and which wake-up object its consumers sleep on. -/
structure Inbox where
  queue : List QueueEntry
  notify : Nat

/-- In nanoseconds of the monotonic clock. -/
def relayTtl : Nat := 300 * 1000000000

def maxQueueDepth : Nat := 256

def QueueEntry.isExpired (now : Nat) (entry : QueueEntry) : Bool := relayTtl < now - entry.insertedAt

/-- Where a call of `pop_wait` is: before the lock, after a wake-up or not; after a look that found
nothing; asleep; woken, but not run since; or through. -/
inductive Stage where
  | looking (woken : Bool)
  | armed (notify : Nat)
  | asleep (notify : Nat)
  | notified (notify : Nat)
  | returned (entry : QueueEntry)
  | timedOut
  | cancelled
  deriving DecidableEq, Repr

structure Consumer where
  recipient : Uuid
  deadline : Nat
  stage : Stage

/-- How a frame left its inbox. -/
inductive Fate where
  | returned (consumer : Nat)
  | expired (time : Nat)
  | dropped (depth : Nat)

/-- The inboxes, the permits of the wake-up objects, the consumers, and for each recipient what was
pushed and what became of the frames that left, first to last. -/
structure Registry where
  clock : Nat
  inboxes : Uuid → Option Inbox
  made : Nat
  permit : Uuid → Nat → Bool
  consumers : List Consumer
  pushed : Uuid → List QueueEntry
  fates : Uuid → List (QueueEntry × Fate)

def Registry.start : Registry :=
  ⟨0, fun _ => none, 0, fun _ _ => false, [], fun _ => [], fun _ => []⟩

def Consumer.isAsleepOn (recipient : Uuid) (notify : Nat) (consumer : Consumer) : Bool :=
  consumer.recipient = recipient && consumer.stage = .asleep notify

/-- A consumer that has seen the inbox empty, and goes by its wake-up object. -/
def Consumer.waitsOn (recipient : Uuid) (notify : Nat) (consumer : Consumer) : Bool :=
  consumer.recipient = recipient &&
    (consumer.stage = .armed notify || consumer.stage = .asleep notify)

/-- A consumer that was woken and is about to look. -/
def Consumer.isWokenOn (recipient : Uuid) (notify : Nat) (consumer : Consumer) : Bool :=
  consumer.recipient = recipient &&
    (consumer.stage = .looking true || consumer.stage = .notified notify)

namespace Registry

variable (registry : Registry)

def setStage (index : Nat) (consumer : Consumer) (stage : Stage) : Registry :=
  { registry with consumers := registry.consumers.set index { consumer with stage := stage } }

/-- One waiter is woken, whichever it is; without one, a permit is stored. -/
def notifyOne (recipient : Uuid) (notify choice : Nat) : Option Registry :=
  if registry.consumers.any (Consumer.isAsleepOn recipient notify) then
    match registry.consumers[choice]? with
    | none => none
    | some consumer =>
      if consumer.isAsleepOn recipient notify then
        some (registry.setStage choice consumer (.notified notify))
      else none
  else
    some { registry with
      permit := update registry.permit recipient
        (update (registry.permit recipient) notify true) }

/-- The inbox of a recipient, made where there is none. -/
def inboxOf (recipient : Uuid) : Inbox := (registry.inboxes recipient).getD ⟨[], registry.made⟩

def putInbox (recipient : Uuid) (queue : List QueueEntry) : Registry :=
  { registry with
    inboxes := update registry.inboxes recipient
      (some ⟨queue, (registry.inboxOf recipient).notify⟩)
    made := if (registry.inboxes recipient).isNone then registry.made + 1 else registry.made }

def leave (recipient : Uuid) (gone : List (QueueEntry × Fate)) : Registry :=
  { registry with
    fates := update registry.fates recipient (registry.fates recipient ++ gone) }

/-- The oldest frame of a full inbox makes room. -/
def push (recipient sender : Uuid) (body : List UInt8) (insertedAt choice : Nat) :
    Option Registry :=
  let queue := (registry.inboxOf recipient).queue
  let entry : QueueEntry := ⟨sender, body, insertedAt, (registry.pushed recipient).length⟩
  let full := decide (maxQueueDepth ≤ queue.length)
  let gone := if full then queue.head?.toList.map fun oldest => (oldest, Fate.dropped queue.length) else []
  let stored := (registry.putInbox recipient ((if full then queue.tail else queue) ++ [entry])).leave
    recipient gone
  let logged := { stored with
    pushed := update registry.pushed recipient (registry.pushed recipient ++ [entry]) }
  logged.notifyOne recipient (registry.inboxOf recipient).notify choice

/-- The frames at the front that have expired. -/
def expiredOf (queue : List QueueEntry) : List (QueueEntry × Fate) :=
  (queue.takeWhile (QueueEntry.isExpired registry.clock)).map fun entry =>
    (entry, Fate.expired registry.clock)

def unexpiredOf (queue : List QueueEntry) : List QueueEntry :=
  queue.dropWhile (QueueEntry.isExpired registry.clock)

/-- The lock section of `pop_wait`: the oldest frame that has not expired, or the wake-up object. -/
def look (index : Nat) (consumer : Consumer) : Registry :=
  let inbox := registry.inboxOf consumer.recipient
  let expired := registry.expiredOf inbox.queue
  match registry.unexpiredOf inbox.queue with
  | [] =>
    ((registry.putInbox consumer.recipient []).leave consumer.recipient expired).setStage index
      consumer (.armed inbox.notify)
  | entry :: rest =>
    ((registry.putInbox consumer.recipient rest).leave consumer.recipient
      (expired ++ [(entry, .returned index)])).setStage index consumer (.returned entry)

/-- After a look that found nothing: too late, a stored permit, or sleep. -/
def wait (index : Nat) (consumer : Consumer) (notify : Nat) : Registry :=
  if consumer.deadline ≤ registry.clock then registry.setStage index consumer .timedOut
  else if registry.permit consumer.recipient notify then
    { registry with
      permit := update registry.permit consumer.recipient
        (update (registry.permit consumer.recipient) notify false) }.setStage index consumer
      (.looking true)
  else registry.setStage index consumer (.asleep notify)

/-- A wake-up that was not received goes to another waiter. -/
def cancel (index : Nat) (consumer : Consumer) (choice : Nat) : Option Registry :=
  match consumer.stage with
  | .returned _ | .timedOut | .cancelled => none
  | .notified notify =>
    (registry.setStage index consumer .cancelled).notifyOne consumer.recipient notify choice
  | .looking _ | .armed _ | .asleep _ => some (registry.setStage index consumer .cancelled)

def sweep : Registry :=
  { registry with
    inboxes := fun recipient => (registry.inboxes recipient).bind fun inbox =>
      match registry.unexpiredOf inbox.queue with
      | [] => none
      | entry :: rest => some ⟨entry :: rest, inbox.notify⟩
    fates := fun recipient => registry.fates recipient ++
      registry.expiredOf (((registry.inboxes recipient).map Inbox.queue).getD []) }

end Registry

inductive InboxAction where
  | tick (time : Nat)
  | push (recipient sender : Uuid) (body : List UInt8) (insertedAt choice : Nat)
  | popWait (recipient : Uuid) (wait : Nat)
  | look (index : Nat)
  | wait (index : Nat)
  | wake (index : Nat)
  | timeOut (index : Nat)
  | cancel (index choice : Nat)
  | sweep

/-- One lock section, one wait or one wake-up at a time. -/
def relaying : Machine Registry InboxAction where
  step registry action :=
    match action with
    | .tick time => some { registry with clock := registry.clock + time }
    | .push recipient sender body insertedAt choice =>
      if insertedAt ≤ registry.clock then registry.push recipient sender body insertedAt choice
      else none
    | .popWait recipient wait =>
      some { registry with
        consumers := registry.consumers ++ [⟨recipient, registry.clock + wait, .looking false⟩] }
    | .look index => registry.consumers[index]?.bind fun consumer =>
      match consumer.stage with
      | .looking _ => some (registry.look index consumer)
      | _ => none
    | .wait index => registry.consumers[index]?.bind fun consumer =>
      match consumer.stage with
      | .armed notify => some (registry.wait index consumer notify)
      | _ => none
    | .wake index => registry.consumers[index]?.bind fun consumer =>
      match consumer.stage with
      | .notified _ => some (registry.setStage index consumer (.looking true))
      | _ => none
    | .timeOut index => registry.consumers[index]?.bind fun consumer =>
      match consumer.stage with
      | .asleep _ =>
        if consumer.deadline ≤ registry.clock then some (registry.setStage index consumer .timedOut)
        else none
      | _ => none
    | .cancel index choice => registry.consumers[index]?.bind fun consumer =>
      registry.cancel index consumer choice
    | .sweep => some registry.sweep

/-! ### What is to hold -/

def Registry.queue (registry : Registry) (recipient : Uuid) : List QueueEntry :=
  ((registry.inboxes recipient).map Inbox.queue).getD []

/-- A frame goes to a call of its recipient, or it has expired, or the inbox is full. -/
def Registry.Fair (registry : Registry) (recipient : Uuid) (gone : QueueEntry × Fate) : Prop :=
  match gone.2 with
  | .returned index => ∃ consumer, registry.consumers[index]? = some consumer ∧
      consumer.recipient = recipient ∧ consumer.stage = .returned gone.1
  | .expired time => time ≤ registry.clock ∧ relayTtl < time - gone.1.insertedAt
  | .dropped depth => maxQueueDepth ≤ depth

/-- Frames leave from the front, in the order they were pushed, each for one of three reasons, and a
call returns nothing else. -/
structure Fifo (registry : Registry) : Prop where
  inOrder : ∀ recipient, registry.pushed recipient =
    (registry.fates recipient).map Prod.fst ++ registry.queue recipient
  numbered : ∀ recipient, (registry.pushed recipient).map QueueEntry.serial =
    List.range (registry.pushed recipient).length
  fair : ∀ recipient, ∀ gone ∈ registry.fates recipient, registry.Fair recipient gone
  returned : ∀ index consumer, registry.consumers[index]? = some consumer →
    ∀ entry, consumer.stage = .returned entry →
      (entry, Fate.returned index) ∈ registry.fates consumer.recipient

/-- No call sleeps before its deadline beside a frame that no woken call is about to take. -/
def NoneStalls (registry : Registry) : Prop :=
  ∀ consumer ∈ registry.consumers, ∀ notify, consumer.stage = .asleep notify →
    registry.clock < consumer.deadline → registry.queue consumer.recipient ≠ [] →
      ∃ other ∈ registry.consumers, ∃ woken, other.isWokenOn consumer.recipient woken = true

/-- A consumer of the recipient goes by the wake-up object. -/
def Registry.isAwaited (registry : Registry) (recipient : Uuid) (notify : Nat) : Bool :=
  registry.consumers.any (Consumer.waitsOn recipient notify)

/-- No wake-up is lost in the step: no inbox is swept that a consumer goes by, no permit is stored
twice while one has still to wait, and no woken consumer is cancelled while another waits. -/
def KeepsWakeUps (registry : Registry) : InboxAction → Prop
  | .sweep => ∀ consumer ∈ registry.consumers, ∀ inbox ∈ registry.inboxes consumer.recipient,
      registry.unexpiredOf inbox.queue = [] → consumer.waitsOn consumer.recipient inbox.notify = false
  | .push recipient _ _ _ _ => ∀ inbox ∈ registry.inboxes recipient,
      registry.permit recipient inbox.notify = true →
        registry.isAwaited recipient inbox.notify = false
  | .cancel index _ => ∀ consumer ∈ registry.consumers[index]?,
      ∀ inbox ∈ registry.inboxes consumer.recipient,
        consumer.stage = .looking true ∨ consumer.stage = .notified inbox.notify ∧
          registry.permit consumer.recipient inbox.notify = true →
        registry.isAwaited consumer.recipient inbox.notify = false
  | _ => True

instance decidableKeepsWakeUps (registry : Registry) :
    ∀ action, Decidable (KeepsWakeUps registry action)
  | .sweep => inferInstanceAs (Decidable (∀ consumer ∈ registry.consumers,
      ∀ inbox ∈ registry.inboxes consumer.recipient, registry.unexpiredOf inbox.queue = [] →
        consumer.waitsOn consumer.recipient inbox.notify = false))
  | .push recipient _ _ _ _ => inferInstanceAs (Decidable (∀ inbox ∈ registry.inboxes recipient,
      registry.permit recipient inbox.notify = true →
        registry.isAwaited recipient inbox.notify = false))
  | .cancel index _ => inferInstanceAs (Decidable (∀ consumer ∈ registry.consumers[index]?,
      ∀ inbox ∈ registry.inboxes consumer.recipient,
        consumer.stage = .looking true ∨ consumer.stage = .notified inbox.notify ∧
          registry.permit consumer.recipient inbox.notify = true →
        registry.isAwaited consumer.recipient inbox.notify = false))
  | .tick _ | .popWait .. | .look _ | .wait _ | .wake _ | .timeOut _ => isTrue trivial

/-! ### The order of the frames -/

section

variable {registry next : Registry} {recipient : Uuid}

/-- What a step may do to the frames: more are pushed, some leave from the front, and the calls that
return one are told. -/
theorem Fifo.moved (fifo : Fifo registry) (new : Uuid → List QueueEntry)
    (gone : Uuid → List (QueueEntry × Fate))
    (pushed : ∀ recipient, next.pushed recipient = registry.pushed recipient ++ new recipient)
    (fates : ∀ recipient, next.fates recipient = registry.fates recipient ++ gone recipient)
    (queues : ∀ recipient, registry.queue recipient ++ new recipient =
      (gone recipient).map Prod.fst ++ next.queue recipient)
    (numbered : ∀ recipient, (new recipient).map QueueEntry.serial =
      (List.range (new recipient).length).map ((registry.pushed recipient).length + ·))
    (fair : ∀ recipient, ∀ one ∈ gone recipient, next.Fair recipient one)
    (clock : registry.clock ≤ next.clock)
    (kept : ∀ (index : Nat) (consumer : Consumer) entry, registry.consumers[index]? = some consumer →
      consumer.stage = .returned entry → next.consumers[index]? = some consumer)
    (returned : ∀ (index : Nat) (consumer : Consumer) entry, next.consumers[index]? = some consumer →
      consumer.stage = .returned entry → registry.consumers[index]? = some consumer ∨
        (entry, Fate.returned index) ∈ gone consumer.recipient) : Fifo next where
  inOrder recipient := by
    rw [pushed, fates, fifo.inOrder, map_append, append_assoc, append_assoc, queues]
  numbered recipient := by
    rw [pushed, map_append, fifo.numbered, numbered, length_append, range_add]
  fair recipient one member := by
    rw [fates] at member
    rcases mem_append.mp member with before | now
    · have fairBefore := fifo.fair recipient one before
      obtain ⟨entry, fate⟩ := one
      cases fate with
      | returned index =>
        obtain ⟨consumer, found, same, stage⟩ := fairBefore
        exact ⟨consumer, kept index consumer entry found stage, same, stage⟩
      | expired time => exact ⟨Nat.le_trans fairBefore.1 clock, fairBefore.2⟩
      | dropped depth => exact fairBefore
    · exact fair recipient one now
  returned index consumer found entry stage := by
    rw [fates]
    rcases returned index consumer entry found stage with before | now
    · exact mem_append_left _ (fifo.returned index consumer before entry stage)
    · exact mem_append_right _ now

/-- A step that leaves the frames alone. -/
theorem Fifo.quiet (fifo : Fifo registry) (pushed : next.pushed = registry.pushed)
    (fates : next.fates = registry.fates)
    (queues : ∀ recipient, next.queue recipient = registry.queue recipient)
    (clock : registry.clock ≤ next.clock)
    (same : ∀ (index : Nat) (consumer : Consumer) entry, consumer.stage = .returned entry →
      (next.consumers[index]? = some consumer ↔ registry.consumers[index]? = some consumer)) :
    Fifo next :=
  fifo.moved (fun _ => []) (fun _ => []) (fun recipient => by rw [pushed, append_nil])
    (fun recipient => by rw [fates, append_nil])
    (fun recipient => by rw [queues, append_nil]; rfl) (fun _ => rfl)
    (fun _ _ none => absurd none not_mem_nil) clock
    (fun index consumer entry found stage => (same index consumer entry stage).mpr found)
    (fun index consumer entry found stage => .inl ((same index consumer entry stage).mp found))

variable {index : Nat} {consumer : Consumer} {stage : Stage}

/-- Where a consumer that has not returned goes to a stage that does not return. -/
theorem returned_setStage (found : registry.consumers[index]? = some consumer)
    (before : ∀ entry, consumer.stage ≠ .returned entry) (after : ∀ entry, stage ≠ .returned entry)
    (other : Nat) (one : Consumer) (entry : QueueEntry) (returns : one.stage = .returned entry) :
    (registry.setStage index consumer stage).consumers[other]? = some one ↔
      registry.consumers[other]? = some one := by
  show (registry.consumers.set index _)[other]? = some one ↔ _
  by_cases here : index = other
  · subst here
    have within := (List.getElem?_eq_some_iff.mp found).1
    rw [getElem?_set_self within, found]
    constructor
    · rintro ⟨⟩
      exact absurd returns (after entry)
    · rintro ⟨⟩
      exact absurd returns (before entry)
  · rw [getElem?_set_ne here]

theorem Fifo.setStage (fifo : Fifo registry) (found : registry.consumers[index]? = some consumer)
    (before : ∀ entry, consumer.stage ≠ .returned entry) (after : ∀ entry, stage ≠ .returned entry) :
    Fifo (registry.setStage index consumer stage) :=
  fifo.quiet rfl rfl (fun _ => rfl) (Nat.le_refl _) (returned_setStage found before after)

variable {notify choice : Nat}

theorem Fifo.notifyOne (fifo : Fifo registry)
    (woken : registry.notifyOne recipient notify choice = some next) : Fifo next := by
  unfold Registry.notifyOne at woken
  split at woken
  · split at woken
    · cases woken
    · rename_i consumer found
      split at woken
      · rename_i sleeps
        cases woken
        have asleep : consumer.stage = .asleep notify := by
          simp only [Consumer.isAsleepOn, Bool.and_eq_true, decide_eq_true_eq] at sleeps
          exact sleeps.2
        exact fifo.setStage found (fun entry => asleep ▸ nofun) nofun
      · cases woken
  · cases woken
    exact fifo.quiet rfl rfl (fun _ => rfl) (Nat.le_refl _) fun _ _ _ _ => Iff.rfl

theorem queue_inboxOf (registry : Registry) (recipient : Uuid) :
    (registry.inboxOf recipient).queue = registry.queue recipient := by
  unfold Registry.inboxOf Registry.queue
  cases registry.inboxes recipient <;> rfl

theorem queue_putInbox_self (registry : Registry) (recipient : Uuid) (queue : List QueueEntry) :
    (registry.putInbox recipient queue).queue recipient = queue := by
  show ((update registry.inboxes recipient _ recipient).map Inbox.queue).getD [] = queue
  rw [update_self]
  rfl

variable {other : Uuid}

theorem queue_putInbox_of_ne (registry : Registry) (distinct : other ≠ recipient)
    (queue : List QueueEntry) :
    (registry.putInbox recipient queue).queue other = registry.queue other := by
  show ((update registry.inboxes recipient _ other).map Inbox.queue).getD [] = _
  rw [update_of_ne distinct]
  rfl

/-- A step on one inbox: what is pushed there, and what leaves it. -/
theorem Fifo.movedAt (fifo : Fifo registry) (recipient : Uuid) (new : List QueueEntry)
    (gone : List (QueueEntry × Fate)) (queue : List QueueEntry)
    (pushed : next.pushed = update registry.pushed recipient
      (registry.pushed recipient ++ new))
    (fates : next.fates = update registry.fates recipient
      (registry.fates recipient ++ gone))
    (inboxes : next.inboxes = (registry.putInbox recipient queue).inboxes)
    (queues : registry.queue recipient ++ new = gone.map Prod.fst ++ queue)
    (numbered : new.map QueueEntry.serial =
      (List.range new.length).map ((registry.pushed recipient).length + ·))
    (fair : ∀ one ∈ gone, next.Fair recipient one) (clock : registry.clock ≤ next.clock)
    (kept : ∀ (index : Nat) (consumer : Consumer) entry, registry.consumers[index]? = some consumer →
      consumer.stage = .returned entry → next.consumers[index]? = some consumer)
    (returned : ∀ (index : Nat) (consumer : Consumer) entry,
      next.consumers[index]? = some consumer → consumer.stage = .returned entry →
        registry.consumers[index]? = some consumer ∨
          consumer.recipient = recipient ∧ (entry, Fate.returned index) ∈ gone) : Fifo next := by
  have same : ∀ other, next.queue other = (registry.putInbox recipient queue).queue other :=
    fun other => congrArg (fun inboxes => ((inboxes other).map Inbox.queue).getD []) inboxes
  refine fifo.moved (update (fun _ => []) recipient new)
    (update (fun _ => []) recipient gone) ?_ ?_ ?_ ?_ ?_ clock kept ?_
  · intro other
    by_cases here : other = recipient
    · subst here
      rw [pushed, update_self, update_self]
    · rw [pushed, update_of_ne here, update_of_ne here, append_nil]
  · intro other
    by_cases here : other = recipient
    · subst here
      rw [fates, update_self, update_self]
    · rw [fates, update_of_ne here, update_of_ne here, append_nil]
  · intro other
    by_cases here : other = recipient
    · subst here
      rw [same, queue_putInbox_self, update_self, update_self, queues]
    · rw [same, queue_putInbox_of_ne registry here, update_of_ne here,
        update_of_ne here, append_nil]
      rfl
  · intro other
    by_cases here : other = recipient
    · subst here
      rw [update_self, numbered]
    · rw [update_of_ne here]
      rfl
  · intro other one member
    by_cases here : other = recipient
    · subst here
      rw [update_self] at member
      exact fair one member
    · rw [update_of_ne here] at member
      exact absurd member not_mem_nil
  · intro index consumer entry found stage
    refine (returned index consumer entry found stage).imp_right ?_
    rintro ⟨rfl, told⟩
    rwa [update_self]

variable {sender : Uuid} {body : List UInt8} {insertedAt : Nat}

theorem Fifo.push (fifo : Fifo registry)
    (pushed : registry.push recipient sender body insertedAt choice = some next) : Fifo next := by
  unfold Registry.push at pushed
  refine Fifo.notifyOne ?_ pushed
  refine fifo.movedAt recipient _ _ _ rfl rfl rfl ?_ rfl ?_ (Nat.le_refl _)
    (fun _ _ _ found _ => found) fun _ _ _ found _ => .inl found
  · rw [queue_inboxOf]
    split
    · cases registry.queue recipient <;> rfl
    · rfl
  · intro one member
    split at member
    · rename_i full
      obtain ⟨oldest, -, rfl⟩ := mem_map.mp member
      have deep : maxQueueDepth ≤ (registry.inboxOf recipient).queue.length := of_decide_eq_true full
      exact deep
    · exact absurd member not_mem_nil

theorem map_expiredOf (registry : Registry) (queue : List QueueEntry) :
    (registry.expiredOf queue).map Prod.fst ++ registry.unexpiredOf queue = queue := by
  have fronts : (registry.expiredOf queue).map Prod.fst =
      queue.takeWhile (QueueEntry.isExpired registry.clock) := by
    show List.map Prod.fst (List.map _ _) = _
    rw [map_map]
    exact map_id _
  rw [fronts]
  exact takeWhile_append_dropWhile

theorem fair_expiredOf {queue : List QueueEntry} {one : QueueEntry × Fate}
    (member : one ∈ registry.expiredOf queue) (clock : registry.clock ≤ next.clock) :
    next.Fair recipient one := by
  obtain ⟨entry, front, rfl⟩ := mem_map.mp member
  have expired := all_eq_true.mp all_takeWhile entry front
  exact ⟨clock, of_decide_eq_true expired⟩

theorem look_of_nil (left : registry.unexpiredOf (registry.inboxOf consumer.recipient).queue = []) :
    registry.look index consumer =
      ((registry.putInbox consumer.recipient []).leave consumer.recipient
        (registry.expiredOf (registry.inboxOf consumer.recipient).queue)).setStage index consumer
        (.armed (registry.inboxOf consumer.recipient).notify) := by
  unfold Registry.look
  simp only [left]

theorem look_of_cons {entry : QueueEntry} {rest : List QueueEntry}
    (left : registry.unexpiredOf (registry.inboxOf consumer.recipient).queue = entry :: rest) :
    registry.look index consumer =
      ((registry.putInbox consumer.recipient rest).leave consumer.recipient
        (registry.expiredOf (registry.inboxOf consumer.recipient).queue ++
          [(entry, .returned index)])).setStage index consumer (.returned entry) := by
  unfold Registry.look
  simp only [left]

theorem Fifo.look (fifo : Fifo registry) {woken : Bool}
    (found : registry.consumers[index]? = some consumer) (stage : consumer.stage = .looking woken) :
    Fifo (registry.look index consumer) := by
  have within := (List.getElem?_eq_some_iff.mp found).1
  have looks : ∀ entry, consumer.stage ≠ .returned entry := fun entry => stage ▸ nofun
  have split := map_expiredOf registry (registry.inboxOf consumer.recipient).queue
  cases left : registry.unexpiredOf (registry.inboxOf consumer.recipient).queue with
  | nil =>
    rw [left, append_nil] at split
    rw [look_of_nil left]
    have armed : ∀ entry, Stage.armed (registry.inboxOf consumer.recipient).notify ≠ .returned entry :=
      nofun
    refine Fifo.movedAt fifo consumer.recipient [] _ [] ?_ rfl rfl ?_ rfl ?_ (Nat.le_refl _) ?_ ?_
    · show registry.pushed = _
      rw [append_nil, update_eq_self]
    · rw [append_nil, append_nil, split, queue_inboxOf]
    · exact fun one member => fair_expiredOf member (Nat.le_refl _)
    · exact fun other one entry here returns =>
        (returned_setStage found looks armed other one entry returns).mpr here
    · exact fun other one entry here returns =>
        .inl ((returned_setStage found looks armed other one entry returns).mp here)
  | cons entry rest =>
    rw [left] at split
    rw [look_of_cons left]
    have told : (((registry.putInbox consumer.recipient rest).leave consumer.recipient
        (registry.expiredOf (registry.inboxOf consumer.recipient).queue ++
          [(entry, .returned index)])).setStage index consumer (.returned entry)).consumers[index]? =
        some { consumer with stage := .returned entry } := getElem?_set_self within
    refine Fifo.movedAt fifo consumer.recipient [] _ rest ?_ rfl rfl ?_ rfl ?_ (Nat.le_refl _) ?_ ?_
    · show registry.pushed = _
      rw [append_nil, update_eq_self]
    · rw [append_nil, map_append, append_assoc, ← queue_inboxOf]
      exact split.symm
    · intro one member
      rcases mem_append.mp member with before | last
      · exact fair_expiredOf before (Nat.le_refl _)
      · rw [mem_singleton.mp last]
        exact ⟨_, told, rfl, rfl⟩
    · intro other one earlier here returns
      have distinct : index ≠ other := by
        rintro rfl
        rw [found] at here
        cases here
        exact looks earlier returns
      exact (getElem?_set_ne distinct).trans here
    · intro other one earlier here returns
      by_cases same : index = other
      · subst same
        rw [told] at here
        cases here
        cases returns
        exact .inr ⟨rfl, mem_append_right _ (mem_singleton_self _)⟩
      · exact .inl ((getElem?_set_ne same).symm.trans here)

theorem Fifo.wait (fifo : Fifo registry) (found : registry.consumers[index]? = some consumer)
    (stage : consumer.stage = .armed notify) :
    Fifo (registry.wait index consumer notify) := by
  have before : ∀ entry, consumer.stage ≠ .returned entry := fun entry => stage ▸ nofun
  have woken : ∀ entry, Stage.looking true ≠ .returned entry := nofun
  unfold Registry.wait
  split
  · exact fifo.setStage found before nofun
  · split
    · exact fifo.quiet rfl rfl (fun _ => rfl) (Nat.le_refl _) (returned_setStage found before woken)
    · exact fifo.setStage found before nofun

theorem Fifo.cancel (fifo : Fifo registry) (found : registry.consumers[index]? = some consumer)
    (cancelled : registry.cancel index consumer choice = some next) : Fifo next := by
  unfold Registry.cancel at cancelled
  cases stage : consumer.stage with
  | returned entry => simp only [stage, reduceCtorEq] at cancelled
  | timedOut => simp only [stage, reduceCtorEq] at cancelled
  | cancelled => simp only [stage, reduceCtorEq] at cancelled
  | notified notify =>
    simp only [stage] at cancelled
    have without : Fifo (registry.setStage index consumer .cancelled) :=
      fifo.setStage found (fun entry => stage ▸ nofun) nofun
    exact without.notifyOne cancelled
  | looking woken =>
    simp only [stage, Option.some.injEq] at cancelled
    exact cancelled ▸ fifo.setStage found (fun entry => stage ▸ nofun) nofun
  | armed notify =>
    simp only [stage, Option.some.injEq] at cancelled
    exact cancelled ▸ fifo.setStage found (fun entry => stage ▸ nofun) nofun
  | asleep notify =>
    simp only [stage, Option.some.injEq] at cancelled
    exact cancelled ▸ fifo.setStage found (fun entry => stage ▸ nofun) nofun

theorem queue_sweep (registry : Registry) (recipient : Uuid) :
    registry.sweep.queue recipient = registry.unexpiredOf (registry.queue recipient) := by
  show (((registry.inboxes recipient).bind _).map Inbox.queue).getD [] =
    registry.unexpiredOf (((registry.inboxes recipient).map Inbox.queue).getD [])
  cases registry.inboxes recipient with
  | none => rfl
  | some inbox =>
    show ((match registry.unexpiredOf inbox.queue with
      | [] => none
      | entry :: rest => some (Inbox.mk (entry :: rest) inbox.notify)).map Inbox.queue).getD [] =
        registry.unexpiredOf inbox.queue
    cases registry.unexpiredOf inbox.queue <;> rfl

theorem Fifo.sweep (fifo : Fifo registry) : Fifo registry.sweep :=
  fifo.moved (fun _ => []) (fun recipient => registry.expiredOf (registry.queue recipient))
    (fun _ => (append_nil _).symm) (fun _ => rfl)
    (fun recipient => by rw [append_nil, queue_sweep, map_expiredOf]) (fun _ => rfl)
    (fun _ _ member => fair_expiredOf member (Nat.le_refl _)) (Nat.le_refl _)
    (fun _ _ _ found _ => found) fun _ _ _ found _ => .inl found

theorem Fifo.popWait (fifo : Fifo registry) (consumer : Consumer) {woken : Bool}
    (looks : consumer.stage = .looking woken) :
    Fifo { registry with consumers := registry.consumers ++ [consumer] } := by
  refine fifo.quiet rfl rfl (fun _ => rfl) (Nat.le_refl _) fun index one entry returns => ?_
  by_cases within : index < registry.consumers.length
  · show (registry.consumers ++ [consumer])[index]? = some one ↔ _
    rw [getElem?_append_left within]
  · rw [getElem?_eq_none (Nat.not_lt.mp within)]
    refine iff_of_false (fun found => ?_) nofun
    rcases mem_append.mp (mem_of_getElem? found) with before | last
    · rw [show (registry.consumers ++ [consumer])[index]? = _ from
        getElem?_append_right (Nat.not_lt.mp within)] at found
      have same := mem_singleton.mp (mem_of_getElem? found)
      rw [same, looks] at returns
      cases returns
    · rw [mem_singleton.mp last, looks] at returns
      cases returns

/-- What a step on a consumer at a stage comes to. -/
theorem bind_consumer {act : Consumer → Option Registry}
    (stepped : registry.consumers[index]?.bind act = some next) :
    ∃ consumer, registry.consumers[index]? = some consumer ∧ act consumer = some next :=
  Option.bind_eq_some_iff.mp stepped

variable {action : InboxAction}

theorem Fifo.step (fifo : Fifo registry) (stepped : relaying.step registry action = some next) :
    Fifo next := by
  cases action with
  | tick time =>
    cases stepped
    exact fifo.quiet rfl rfl (fun _ => rfl) (Nat.le_add_right _ _) fun _ _ _ _ => Iff.rfl
  | push recipient sender body insertedAt choice =>
    simp only [relaying] at stepped
    split at stepped
    · exact fifo.push stepped
    · cases stepped
  | popWait recipient wait =>
    cases stepped
    exact fifo.popWait _ rfl
  | look index =>
    obtain ⟨consumer, found, acted⟩ := bind_consumer stepped
    cases stage : consumer.stage with
    | looking woken =>
      simp only [stage, Option.some.injEq] at acted
      exact acted ▸ fifo.look found stage
    | _ => simp only [stage, reduceCtorEq] at acted
  | wait index =>
    obtain ⟨consumer, found, acted⟩ := bind_consumer stepped
    cases stage : consumer.stage with
    | armed notify =>
      simp only [stage, Option.some.injEq] at acted
      exact acted ▸ fifo.wait found stage
    | _ => simp only [stage, reduceCtorEq] at acted
  | wake index =>
    obtain ⟨consumer, found, acted⟩ := bind_consumer stepped
    cases stage : consumer.stage with
    | notified notify =>
      simp only [stage, Option.some.injEq] at acted
      exact acted ▸ fifo.setStage found (fun entry => stage ▸ nofun) nofun
    | _ => simp only [stage, reduceCtorEq] at acted
  | timeOut index =>
    obtain ⟨consumer, found, acted⟩ := bind_consumer stepped
    cases stage : consumer.stage with
    | asleep notify =>
      simp only [stage] at acted
      split at acted
      · cases acted
        exact fifo.setStage found (fun entry => stage ▸ nofun) nofun
      · cases acted
    | _ => simp only [stage, reduceCtorEq] at acted
  | cancel index choice =>
    obtain ⟨consumer, found, acted⟩ := bind_consumer stepped
    exact fifo.cancel found acted
  | sweep =>
    cases stepped
    exact fifo.sweep

theorem fifo_start : Fifo Registry.start where
  inOrder _ := rfl
  numbered _ := rfl
  fair _ _ none := absurd none not_mem_nil
  returned _ _ found := absurd found nofun

/-! ### The wake-ups -/

/-- The consumers of a recipient that were woken and are about to look. -/
def Registry.woken (registry : Registry) (recipient : Uuid) (notify : Nat) : Nat :=
  (registry.consumers.filter (Consumer.isWokenOn recipient notify)).length

/-- While a consumer goes by the wake-up object of an inbox, there are no more frames than woken
consumers and permits, but for so many. -/
def Registry.Enough (registry : Registry) (recipient : Uuid) (short : Nat) : Prop :=
  ∀ inbox ∈ registry.inboxes recipient, registry.isAwaited recipient inbox.notify = true →
    inbox.queue.length ≤ registry.woken recipient inbox.notify +
      (registry.permit recipient inbox.notify).toNat + short

/-- What the wake-ups come to when none is lost. -/
structure Attended (registry : Registry) (short : Uuid → Nat) : Prop where
  current : ∀ consumer ∈ registry.consumers, ∀ notify,
    consumer.waitsOn consumer.recipient notify = true →
      ∃ inbox, registry.inboxes consumer.recipient = some inbox ∧ inbox.notify = notify
  permitted : ∀ recipient, ∀ inbox ∈ registry.inboxes recipient,
    registry.permit recipient inbox.notify = true → ∀ consumer ∈ registry.consumers,
      consumer.isAsleepOn recipient inbox.notify = false
  enough : ∀ recipient, registry.Enough recipient (short recipient)

theorem isAwaited_iff : registry.isAwaited recipient notify = true ↔
    ∃ consumer ∈ registry.consumers, consumer.waitsOn recipient notify = true := by
  rw [Registry.isAwaited, any_eq_true]

theorem recipient_of_waitsOn (waits : consumer.waitsOn recipient notify = true) :
    consumer.recipient = recipient := by
  simp only [Consumer.waitsOn, Bool.and_eq_true, decide_eq_true_eq] at waits
  exact waits.1

theorem waitsOn_of_isAsleepOn (sleeps : consumer.isAsleepOn recipient notify = true) :
    consumer.waitsOn recipient notify = true := by
  simp only [Consumer.isAsleepOn, Consumer.waitsOn, Bool.and_eq_true, Bool.or_eq_true,
    decide_eq_true_eq] at sleeps ⊢
  exact ⟨sleeps.1, .inr sleeps.2⟩

theorem Attended.noneStalls (attended : Attended registry fun _ => 0) : NoneStalls registry := by
  intro consumer member notify asleep early waiting
  have sleeps : consumer.isAsleepOn consumer.recipient notify = true := by
    simp only [Consumer.isAsleepOn, asleep, decide_true, Bool.and_self]
  have waits := waitsOn_of_isAsleepOn sleeps
  obtain ⟨inbox, here, rfl⟩ := attended.current consumer member notify waits
  have unpermitted : registry.permit consumer.recipient inbox.notify = false := by
    by_contra permit
    have awake := attended.permitted _ inbox here (Bool.not_eq_false _ ▸ permit) consumer member
    rw [sleeps] at awake
    cases awake
  have enough := attended.enough consumer.recipient inbox here
    (isAwaited_iff.mpr ⟨consumer, member, waits⟩)
  have holds : 0 < inbox.queue.length := by
    rw [Registry.queue, here] at waiting
    exact length_pos_of_ne_nil waiting
  rw [unpermitted] at enough
  have some : 0 < (registry.consumers.filter
      (Consumer.isWokenOn consumer.recipient inbox.notify)).length := by
    simp only [Registry.woken, Bool.toNat_false] at enough
    omega
  obtain ⟨other, isOther⟩ := exists_mem_of_length_pos some
  obtain ⟨otherMember, woken⟩ := mem_filter.mp isOther
  exact ⟨other, otherMember, inbox.notify, woken⟩

variable {short : Uuid → Nat}

variable {left : Uuid → Nat}

/-- A consumer that comes to another stage, on an unchanged registry but for the permits: it does
not start to wait, and what no longer counts as woken is made up for. -/
theorem Attended.setStage (attended : Attended registry short)
    (found : registry.consumers[index]? = some consumer)
    (waits : ∀ notify, ({ consumer with stage := stage } : Consumer).waitsOn consumer.recipient
      notify = true → consumer.waitsOn consumer.recipient notify = true)
    (sleeps : ∀ notify, registry.permit consumer.recipient notify = true →
      ({ consumer with stage := stage } : Consumer).isAsleepOn consumer.recipient notify = false)
    (others : ∀ recipient, recipient ≠ consumer.recipient → short recipient ≤ left recipient)
    (same : ∀ inbox ∈ registry.inboxes consumer.recipient,
      (registry.setStage index consumer stage).isAwaited consumer.recipient inbox.notify = true →
      (consumer.isWokenOn consumer.recipient inbox.notify).toNat + short consumer.recipient ≤
        (({ consumer with stage := stage } : Consumer).isWokenOn consumer.recipient
          inbox.notify).toNat + left consumer.recipient) :
    Attended (registry.setStage index consumer stage) left := by
  have member := mem_of_getElem? found
  have back : ∀ one ∈ (registry.setStage index consumer stage).consumers,
      one ∈ registry.consumers ∨ one = { consumer with stage := stage } :=
    fun one mem => mem_or_eq_of_mem_set mem
  have awaited : ∀ recipient notify,
      (registry.setStage index consumer stage).isAwaited recipient notify = true →
        registry.isAwaited recipient notify = true := by
    intro recipient notify isAwaited
    obtain ⟨one, oneMember, oneWaits⟩ := isAwaited_iff.mp isAwaited
    rcases back one oneMember with before | rfl
    · exact isAwaited_iff.mpr ⟨one, before, oneWaits⟩
    · have here : ({ consumer with stage := stage } : Consumer).recipient = recipient :=
        recipient_of_waitsOn oneWaits
      change consumer.recipient = recipient at here
      subst here
      exact isAwaited_iff.mpr ⟨consumer, member, waits notify oneWaits⟩
  refine ⟨?_, ?_, ?_⟩
  · intro one oneMember notify oneWaits
    rcases back one oneMember with before | rfl
    · exact attended.current one before notify oneWaits
    · exact attended.current consumer member notify (waits notify oneWaits)
  · intro recipient inbox here permit one oneMember
    rcases back one oneMember with before | rfl
    · exact attended.permitted recipient inbox here permit one before
    · by_cases own : recipient = consumer.recipient
      · subst own
        exact sleeps inbox.notify permit
      · exact Bool.and_eq_false_iff.mpr (.inl (decide_eq_false fun isOwn => own isOwn.symm))
  · intro recipient inbox here isAwaited
    have before := attended.enough recipient inbox here (awaited recipient inbox.notify isAwaited)
    have counted := length_filter_set found (Consumer.isWokenOn recipient inbox.notify)
      { consumer with stage := stage }
    show inbox.queue.length ≤ ((registry.consumers.set index _).filter _).length +
      (registry.permit recipient inbox.notify).toNat + left recipient
    unfold Registry.woken at before
    by_cases own : recipient = consumer.recipient
    · subst own
      have made := same inbox here isAwaited
      omega
    · have apart : ∀ stage, ({ consumer with stage := stage } : Consumer).isWokenOn recipient
          inbox.notify = false :=
        fun stage => Bool.and_eq_false_iff.mpr (.inl (decide_eq_false fun isOwn => own isOwn.symm))
      have old : consumer.isWokenOn recipient inbox.notify = false := apart consumer.stage
      rw [old, apart] at counted
      have room := others recipient own
      omega

/-- One more is owed to a recipient. -/
def oneAt (recipient other : Uuid) : Nat := if other = recipient then 1 else 0

theorem oneAt_self (recipient : Uuid) : oneAt recipient recipient = 1 := if_pos rfl

theorem oneAt_of_ne (distinct : other ≠ recipient) : oneAt recipient other = 0 :=
  if_neg distinct

/-- A consumer that stops to wait, or goes from one stage at which it is not woken to another. -/
theorem Attended.leaves (attended : Attended registry short)
    (found : registry.consumers[index]? = some consumer)
    (waits : ∀ notify, stage ≠ .armed notify ∧ stage ≠ .asleep notify)
    (woken : ∀ notify, consumer.isWokenOn consumer.recipient notify = true →
      ({ consumer with stage := stage } : Consumer).isWokenOn consumer.recipient notify = true) :
    Attended (registry.setStage index consumer stage) short := by
  have notWaits : ∀ notify, ({ consumer with stage := stage } : Consumer).waitsOn consumer.recipient
      notify = false := by
    intro notify
    simp only [Consumer.waitsOn, (waits notify).1, (waits notify).2, decide_false, Bool.or_self,
      Bool.and_false]
  refine attended.setStage found (fun notify waiting => ?_) (fun notify _ => ?_)
    (fun _ _ => Nat.le_refl _) fun inbox _ _ => ?_
  · rw [notWaits] at waiting
    cases waiting
  · by_contra sleeps
    have waiting := waitsOn_of_isAsleepOn (Bool.not_eq_false _ ▸ sleeps)
    rw [notWaits] at waiting
    cases waiting
  · cases before : consumer.isWokenOn consumer.recipient inbox.notify with
    | true => exact Nat.le_of_eq (by rw [woken inbox.notify before])
    | false => exact Nat.add_le_add_right (Nat.zero_le _) _

/-- The queue of one recipient is replaced. -/
theorem Attended.putInbox (attended : Attended registry short) (recipient : Uuid)
    (queue : List QueueEntry) (inboxes : next.inboxes = (registry.putInbox recipient queue).inboxes)
    (permit : next.permit = registry.permit) (consumers : next.consumers = registry.consumers)
    (others : ∀ other, other ≠ recipient → short other = left other)
    (length : queue.length + short recipient ≤ (registry.queue recipient).length + left recipient) :
    Attended next left := by
  have put : next.inboxes recipient = some ⟨queue, (registry.inboxOf recipient).notify⟩ := by
    rw [inboxes]
    exact update_self ..
  have apart : ∀ other, other ≠ recipient → next.inboxes other = registry.inboxes other := by
    intro other distinct
    rw [inboxes]
    exact update_of_ne distinct ..
  have keeps : ∀ inbox, registry.inboxes recipient = some inbox →
      (registry.inboxOf recipient).notify = inbox.notify := by
    intro inbox here
    rw [Registry.inboxOf, here]
    rfl
  have awaited : ∀ notify, next.isAwaited recipient notify = true →
      ∃ inbox, registry.inboxes recipient = some inbox ∧ inbox.notify = notify := by
    intro notify isAwaited
    obtain ⟨one, member, waits⟩ := isAwaited_iff.mp isAwaited
    rw [consumers] at member
    have own := recipient_of_waitsOn waits
    subst own
    exact attended.current one member notify waits
  have same : ∀ other notify, next.isAwaited other notify = registry.isAwaited other notify :=
    fun other notify => congrArg (List.any · (Consumer.waitsOn other notify)) consumers
  have counts : ∀ other notify, next.woken other notify = registry.woken other notify :=
    fun other notify => congrArg (fun list => (List.filter (Consumer.isWokenOn other notify)
      list).length) consumers
  refine ⟨?_, ?_, ?_⟩
  · intro one member notify waits
    rw [consumers] at member
    obtain ⟨inbox, here, isNotify⟩ := attended.current one member notify waits
    by_cases own : one.recipient = recipient
    · rw [own] at here ⊢
      exact ⟨_, put, (keeps inbox here).trans isNotify⟩
    · exact ⟨inbox, (apart _ own).trans here, isNotify⟩
  · intro other inbox here isPermitted one member
    rw [permit] at isPermitted
    rw [consumers] at member
    by_cases own : other = recipient
    · subst own
      rw [put] at here
      cases here
      by_contra sleeps
      have waits := waitsOn_of_isAsleepOn (Bool.not_eq_false _ ▸ sleeps)
      obtain ⟨inbox, before, isNotify⟩ := awaited _ (isAwaited_iff.mpr ⟨one, consumers ▸ member, waits⟩)
      have awake := attended.permitted other inbox before (isNotify ▸ isPermitted) one member
      rw [isNotify] at awake
      exact sleeps awake
    · rw [apart other own] at here
      exact attended.permitted other inbox here isPermitted one member
  · intro other inbox here isAwaited
    rw [counts, permit]
    by_cases own : other = recipient
    · subst own
      rw [put] at here
      cases here
      obtain ⟨inbox, before, isNotify⟩ := awaited _ isAwaited
      rw [same, ← isNotify] at isAwaited
      have enough := attended.enough other inbox before isAwaited
      rw [isNotify] at enough
      rw [Registry.queue, before] at length
      change queue.length + short other ≤ inbox.queue.length + left other at length
      show queue.length ≤ _
      omega
    · rw [apart other own] at here
      rw [← others other own]
      exact attended.enough other inbox here (same other inbox.notify ▸ isAwaited)

/-- One wake-up on a wake-up object makes up for the one that is owed. -/
theorem Attended.notifyOne (attended : Attended registry short)
    (owed : ∀ other, short other = if other = recipient ∧
      (registry.inboxes recipient).any (fun inbox => inbox.notify = notify) then 1 else 0)
    (unpermitted : ∀ inbox ∈ registry.inboxes recipient, inbox.notify = notify →
      registry.permit recipient notify = true → registry.isAwaited recipient notify = false)
    (woken : registry.notifyOne recipient notify choice = some next) :
    Attended next fun _ => 0 := by
  have atMost : ∀ other, short other ≤ 1 := by
    intro other
    rw [owed]
    split <;> decide
  have none : ∀ other, other ≠ recipient → short other = 0 := by
    intro other distinct
    rw [owed, if_neg fun both => distinct both.1]
  unfold Registry.notifyOne at woken
  split at woken
  · split at woken
    · cases woken
    · rename_i consumer found
      split at woken
      · rename_i sleeps
        cases woken
        have own : consumer.recipient = recipient := recipient_of_waitsOn (waitsOn_of_isAsleepOn sleeps)
        subst own
        have asleep : consumer.stage = .asleep notify := by
          simp only [Consumer.isAsleepOn, Bool.and_eq_true, decide_eq_true_eq] at sleeps
          exact sleeps.2
        obtain ⟨inbox, here, rfl⟩ := attended.current consumer (mem_of_getElem? found) notify
          (waitsOn_of_isAsleepOn sleeps)
        refine attended.setStage found (fun other waits => ?_) (fun other _ => ?_)
          (fun other distinct => Nat.le_of_eq (none other distinct)) fun other isOther _ => ?_
        · simp [Consumer.waitsOn] at waits
        · simp [Consumer.isAsleepOn]
        · rw [here] at isOther
          cases isOther
          have before : consumer.isWokenOn consumer.recipient inbox.notify = false := by
            simp [Consumer.isWokenOn, asleep]
          have after : ({ consumer with stage := .notified inbox.notify } : Consumer).isWokenOn
              consumer.recipient inbox.notify = true := by
            simp [Consumer.isWokenOn]
          rw [before, after, Bool.toNat_false, Bool.toNat_true]
          have bound := atMost consumer.recipient
          omega
      · cases woken
  · rename_i noSleeper
    cases woken
    have awake : ∀ consumer ∈ registry.consumers, consumer.isAsleepOn recipient notify = false := by
      intro consumer member
      by_contra sleeps
      exact noSleeper (any_eq_true.mpr ⟨consumer, member, Bool.not_eq_false _ ▸ sleeps⟩)
    refine ⟨attended.current, ?_, ?_⟩
    · intro other inbox here isPermitted consumer member
      by_cases own : other = recipient
      · subst own
        by_cases isNotify : inbox.notify = notify
        · exact isNotify ▸ awake consumer member
        · refine attended.permitted other inbox here ?_ consumer member
          change update registry.permit other _ other inbox.notify = true at isPermitted
          rwa [update_self, update_of_ne isNotify] at isPermitted
      · refine attended.permitted other inbox here ?_ consumer member
        change update registry.permit recipient _ other inbox.notify = true at isPermitted
        rwa [update_of_ne own] at isPermitted
    · intro other inbox here isAwaited
      have enough := attended.enough other inbox here isAwaited
      show inbox.queue.length ≤ registry.woken other inbox.notify +
        (update registry.permit recipient _ other inbox.notify).toNat + 0
      by_cases own : other = recipient
      · subst own
        by_cases isNotify : inbox.notify = notify
        · subst isNotify
          have free : registry.permit other inbox.notify = false := by
            by_contra isPermitted
            have unawaited := unpermitted inbox here rfl (Bool.not_eq_false _ ▸ isPermitted)
            rw [show registry.isAwaited other inbox.notify = true from isAwaited] at unawaited
            cases unawaited
          rw [update_self, update_self, Bool.toNat_true]
          rw [free, Bool.toNat_false] at enough
          have bound := atMost other
          omega
        · have nothing : short other = 0 := by
            rw [owed, if_neg]
            rintro ⟨-, isOwed⟩
            rw [show registry.inboxes other = some inbox from here] at isOwed
            exact isNotify (of_decide_eq_true isOwed)
          rw [update_self, update_of_ne isNotify]
          omega
      · rw [update_of_ne own]
        have nothing := none other own
        omega

/-- A push puts a frame more into the inbox, at most, and wakes one consumer of it. -/
theorem notified_of_push
    (pushed : registry.push recipient sender body insertedAt choice = some next) :
    ∃ (stored : Registry) (queue : List QueueEntry),
      stored.notifyOne recipient (registry.inboxOf recipient).notify choice = some next ∧
        stored.inboxes = (registry.putInbox recipient queue).inboxes ∧
        stored.permit = registry.permit ∧ stored.consumers = registry.consumers ∧
        queue.length ≤ (registry.queue recipient).length + 1 := by
  unfold Registry.push at pushed
  refine ⟨_, _, pushed, rfl, rfl, rfl, ?_⟩
  rw [queue_inboxOf, length_append]
  refine Nat.add_le_add_right ?_ 1
  split
  · rw [length_tail]
    exact Nat.sub_le _ 1
  · exact Nat.le_refl _

variable {inbox : Inbox}

theorem inboxOf_of_some (here : registry.inboxes recipient = some inbox) :
    registry.inboxOf recipient = inbox := by
  rw [Registry.inboxOf, here]
  rfl

theorem Attended.push (attended : Attended registry fun _ => 0)
    (keeps : KeepsWakeUps registry (.push recipient sender body insertedAt choice))
    (pushed : registry.push recipient sender body insertedAt choice = some next) :
    Attended next fun _ => 0 := by
  obtain ⟨stored, queue, notified, inboxes, permit, consumers, length⟩ := notified_of_push pushed
  have put : stored.inboxes recipient = some ⟨queue, (registry.inboxOf recipient).notify⟩ := by
    rw [inboxes]
    exact update_self ..
  have owes : Attended stored (oneAt recipient) :=
    attended.putInbox recipient queue inboxes permit consumers
      (fun other distinct => (oneAt_of_ne distinct).symm) (by rw [oneAt_self]; exact length)
  refine owes.notifyOne (fun other => ?_) (fun inbox here isNotify isPermitted => ?_) notified
  · by_cases own : other = recipient
    · subst own
      rw [oneAt_self, if_pos ⟨rfl, by rw [put]; exact decide_eq_true rfl⟩]
    · rw [oneAt_of_ne own, if_neg fun both => own both.1]
  · have same : stored.isAwaited recipient (registry.inboxOf recipient).notify =
        registry.isAwaited recipient (registry.inboxOf recipient).notify :=
      congrArg (List.any · (Consumer.waitsOn _ _)) consumers
    rw [same]
    rw [permit] at isPermitted
    cases before : registry.inboxes recipient with
    | none =>
      by_contra isAwaited
      obtain ⟨one, member, waits⟩ := isAwaited_iff.mp (Bool.not_eq_false _ ▸ isAwaited)
      have own := recipient_of_waitsOn waits
      subst own
      obtain ⟨inbox, there, -⟩ := attended.current one member _ waits
      rw [before] at there
      cases there
    | some old =>
      rw [inboxOf_of_some before] at isPermitted ⊢
      exact keeps old before isPermitted

/-- A consumer that found nothing starts to wait, beside an empty queue. -/
theorem Attended.arm (attended : Attended registry fun _ => 0)
    (found : registry.consumers[index]? = some consumer)
    (here : registry.inboxes consumer.recipient = some inbox) (empty : inbox.queue = []) :
    Attended (registry.setStage index consumer (.armed inbox.notify)) fun _ => 0 := by
  have back : ∀ one ∈ (registry.setStage index consumer (.armed inbox.notify)).consumers,
      one ∈ registry.consumers ∨ one = { consumer with stage := .armed inbox.notify } :=
    fun one mem => mem_or_eq_of_mem_set mem
  refine ⟨?_, ?_, ?_⟩
  · intro one member notify waits
    rcases back one member with before | rfl
    · exact attended.current one before notify waits
    · refine ⟨inbox, here, ?_⟩
      simp only [Consumer.waitsOn, decide_true, Bool.true_and, Bool.or_eq_true, decide_eq_true_eq,
        Stage.armed.injEq, reduceCtorEq, or_false] at waits
      exact waits
  · intro recipient other there permit one member
    rcases back one member with before | rfl
    · exact attended.permitted recipient other there permit one before
    · simp [Consumer.isAsleepOn]
  · intro recipient other there isAwaited
    by_cases own : recipient = consumer.recipient
    · subst own
      rw [show (registry.setStage index consumer (.armed inbox.notify)).inboxes consumer.recipient =
        some inbox from here] at there
      cases there
      rw [empty]
      exact Nat.zero_le _
    · have counted := length_filter_set found (Consumer.isWokenOn recipient other.notify)
        { consumer with stage := .armed inbox.notify }
      have apart : ∀ stage, ({ consumer with stage := stage } : Consumer).isWokenOn recipient
          other.notify = false :=
        fun stage => Bool.and_eq_false_iff.mpr (.inl (decide_eq_false fun isOwn => own isOwn.symm))
      have old : consumer.isWokenOn recipient other.notify = false := apart consumer.stage
      rw [old, apart] at counted
      have awaitedBefore : registry.isAwaited recipient other.notify = true := by
        obtain ⟨one, member, waits⟩ := isAwaited_iff.mp isAwaited
        rcases back one member with before | rfl
        · exact isAwaited_iff.mpr ⟨one, before, waits⟩
        · exact absurd (recipient_of_waitsOn waits).symm own
      have enough := attended.enough recipient other there awaitedBefore
      show other.queue.length ≤ ((registry.consumers.set index _).filter _).length +
        (registry.permit recipient other.notify).toNat + 0
      unfold Registry.woken at enough
      omega

theorem length_unexpiredOf_le (registry : Registry) (queue : List QueueEntry) :
    (registry.unexpiredOf queue).length ≤ queue.length :=
  (dropWhile_suffix _).length_le

theorem Attended.look (attended : Attended registry fun _ => 0)
    (found : registry.consumers[index]? = some consumer) :
    Attended (registry.look index consumer) fun _ => 0 := by
  cases left : registry.unexpiredOf (registry.inboxOf consumer.recipient).queue with
  | nil =>
    rw [look_of_nil left]
    have emptied : Attended ((registry.putInbox consumer.recipient []).leave consumer.recipient
        (registry.expiredOf (registry.inboxOf consumer.recipient).queue)) fun _ => 0 :=
      attended.putInbox consumer.recipient [] rfl rfl rfl (fun _ _ => rfl) (Nat.zero_le _)
    have here : ((registry.putInbox consumer.recipient []).leave consumer.recipient
        (registry.expiredOf (registry.inboxOf consumer.recipient).queue)).inboxes
          consumer.recipient = some ⟨[], (registry.inboxOf consumer.recipient).notify⟩ :=
      update_self ..
    have armed := emptied.arm found here rfl
    exact armed
  | cons entry rest =>
    rw [look_of_cons left]
    have without : Attended (registry.setStage index consumer (.returned entry))
        (oneAt consumer.recipient) := by
      refine attended.setStage found (fun notify waits => ?_) (fun notify _ => ?_)
        (fun other distinct => Nat.zero_le _) fun other isOther _ => ?_
      · simp [Consumer.waitsOn] at waits
      · simp [Consumer.isAsleepOn]
      · rw [oneAt_self]
        have bound := Bool.toNat_le (consumer.isWokenOn consumer.recipient other.notify)
        omega
    refine without.putInbox consumer.recipient rest rfl rfl rfl
      (fun other distinct => oneAt_of_ne distinct) ?_
    have shorter := length_unexpiredOf_le registry (registry.inboxOf consumer.recipient).queue
    rw [left, queue_inboxOf, length_cons] at shorter
    rw [oneAt_self]
    exact shorter

theorem isWokenOn_of_armed {other : Nat} (stage : consumer.stage = .armed notify) :
    consumer.isWokenOn recipient other = false := by
  simp [Consumer.isWokenOn, stage]

theorem isWokenOn_of_asleep {other : Nat} (stage : consumer.stage = .asleep notify) :
    consumer.isWokenOn recipient other = false := by
  simp [Consumer.isWokenOn, stage]

theorem Attended.wait (attended : Attended registry fun _ => 0)
    (found : registry.consumers[index]? = some consumer) (stage : consumer.stage = .armed notify) :
    Attended (registry.wait index consumer notify) fun _ => 0 := by
  have waiting : consumer.waitsOn consumer.recipient notify = true := by
    simp [Consumer.waitsOn, stage]
  unfold Registry.wait
  split
  · refine attended.leaves found (fun _ => ⟨nofun, nofun⟩) fun other woken => ?_
    rw [isWokenOn_of_armed stage] at woken
    cases woken
  · split
    · -- The permit it takes is one less, and it counts as woken from here on.
      have taken : Attended { registry with
          permit := update registry.permit consumer.recipient
            (update (registry.permit consumer.recipient) notify false) }
          (oneAt consumer.recipient) := by
        refine ⟨attended.current, fun recipient inbox here isPermitted => ?_,
          fun recipient inbox here isAwaited => ?_⟩
        · refine attended.permitted recipient inbox here ?_
          change update registry.permit consumer.recipient _ recipient inbox.notify = true
            at isPermitted
          by_cases own : recipient = consumer.recipient
          · subst own
            rw [update_self] at isPermitted
            by_cases isNotify : inbox.notify = notify
            · rw [isNotify, update_self] at isPermitted
              cases isPermitted
            · rwa [update_of_ne isNotify] at isPermitted
          · rwa [update_of_ne own] at isPermitted
        · have enough := attended.enough recipient inbox here isAwaited
          show inbox.queue.length ≤ registry.woken recipient inbox.notify +
            (update registry.permit consumer.recipient _ recipient inbox.notify).toNat +
              oneAt consumer.recipient recipient
          by_cases own : recipient = consumer.recipient
          · rw [own, oneAt_self]
            rw [own] at enough
            have bound := Bool.toNat_le (registry.permit consumer.recipient inbox.notify)
            omega
          · rw [update_of_ne own, oneAt_of_ne own]
            exact enough
      refine taken.setStage found (fun other waits => ?_) (fun other _ => ?_)
        (fun other distinct => Nat.le_of_eq (oneAt_of_ne distinct)) fun inbox isInbox _ => ?_
      · simp [Consumer.waitsOn] at waits
      · simp [Consumer.isAsleepOn]
      · rw [isWokenOn_of_armed stage, oneAt_self]
        simp [Consumer.isWokenOn]
    · rename_i unpermitted
      refine attended.setStage found (fun other waits => ?_) (fun other isPermitted => ?_)
        (fun _ _ => Nat.le_refl _) fun inbox isInbox _ => ?_
      · simp only [Consumer.waitsOn, decide_true, Bool.true_and, Bool.or_eq_true,
          decide_eq_true_eq, Stage.asleep.injEq, reduceCtorEq, false_or] at waits
        exact waits ▸ waiting
      · by_cases isNotify : other = notify
        · exact absurd (isNotify ▸ isPermitted) unpermitted
        · simpa [Consumer.isAsleepOn] using Ne.symm isNotify
      · rw [isWokenOn_of_armed stage]
        exact Nat.add_le_add_right (Nat.zero_le _) _

theorem isAwaited_of_setStage (waits : ∀ notify, stage ≠ .armed notify ∧ stage ≠ .asleep notify)
    (isAwaited : (registry.setStage index consumer stage).isAwaited recipient notify = true) :
    registry.isAwaited recipient notify = true := by
  obtain ⟨one, member, oneWaits⟩ := isAwaited_iff.mp isAwaited
  rcases mem_or_eq_of_mem_set member with before | rfl
  · exact isAwaited_iff.mpr ⟨one, before, oneWaits⟩
  · simp only [Consumer.waitsOn, (waits notify).1, (waits notify).2, decide_false, Bool.or_self,
      Bool.and_false, Bool.false_eq_true] at oneWaits

theorem Attended.cancel (attended : Attended registry fun _ => 0)
    (found : registry.consumers[index]? = some consumer)
    (keeps : KeepsWakeUps registry (.cancel index choice))
    (cancelled : registry.cancel index consumer choice = some next) :
    Attended next fun _ => 0 := by
  have idle : ∀ notify, Stage.cancelled ≠ .armed notify ∧ Stage.cancelled ≠ .asleep notify :=
    fun _ => ⟨nofun, nofun⟩
  unfold Registry.cancel at cancelled
  cases stage : consumer.stage with
  | returned entry => simp only [stage, reduceCtorEq] at cancelled
  | timedOut => simp only [stage, reduceCtorEq] at cancelled
  | cancelled => simp only [stage, reduceCtorEq] at cancelled
  | armed notify =>
    simp only [stage, Option.some.injEq] at cancelled
    subst cancelled
    refine attended.leaves found (fun _ => ⟨nofun, nofun⟩) fun other woken => ?_
    rw [isWokenOn_of_armed stage] at woken
    cases woken
  | asleep notify =>
    simp only [stage, Option.some.injEq] at cancelled
    subst cancelled
    refine attended.leaves found (fun _ => ⟨nofun, nofun⟩) fun other woken => ?_
    rw [isWokenOn_of_asleep stage] at woken
    cases woken
  | looking woken =>
    simp only [stage, Option.some.injEq] at cancelled
    subst cancelled
    refine attended.setStage found (fun notify waits => ?_) (fun notify _ => ?_)
      (fun _ _ => Nat.le_refl _) fun inbox isInbox isAwaited => ?_
    · simp [Consumer.waitsOn] at waits
    · simp [Consumer.isAsleepOn]
    · cases woken with
      | false => simp [Consumer.isWokenOn, stage]
      | true =>
        have unawaited := keeps consumer found inbox isInbox (.inl stage)
        rw [isAwaited_of_setStage idle isAwaited] at unawaited
        cases unawaited
  | notified notify =>
    simp only [stage] at cancelled
    -- Its wake-up is owed where its wake-up object is that of the present inbox.
    have without : Attended (registry.setStage index consumer .cancelled) fun other =>
        if other = consumer.recipient ∧ (registry.inboxes consumer.recipient).any
          (fun inbox => inbox.notify = notify) then 1 else 0 := by
      refine attended.setStage found (fun notify waits => ?_) (fun notify _ => ?_)
        (fun _ _ => Nat.zero_le _) fun inbox isInbox isAwaited => ?_
      · simp [Consumer.waitsOn] at waits
      · simp [Consumer.isAsleepOn]
      · rw [show registry.inboxes consumer.recipient = some inbox from isInbox]
        by_cases isNotify : inbox.notify = notify
        · simp [Consumer.isWokenOn, stage, isNotify]
        · simp [Consumer.isWokenOn, stage, Ne.symm isNotify]
    refine without.notifyOne (fun _ => rfl) (fun inbox here isNotify isPermitted => ?_) cancelled
    have unawaited := keeps consumer found inbox here
      (.inr ⟨isNotify ▸ stage, isNotify ▸ isPermitted⟩)
    rw [isNotify] at unawaited
    by_contra isAwaited
    rw [isAwaited_of_setStage idle (Bool.not_eq_false _ ▸ isAwaited)]
      at unawaited
    cases unawaited

theorem Attended.sweep (attended : Attended registry fun _ => 0)
    (keeps : KeepsWakeUps registry .sweep) : Attended registry.sweep fun _ => 0 := by
  have kept : ∀ recipient inbox, registry.sweep.inboxes recipient = some inbox →
      ∃ before, registry.inboxes recipient = some before ∧ before.notify = inbox.notify ∧
        inbox.queue = registry.unexpiredOf before.queue := by
    intro recipient inbox swept
    obtain ⟨before, here, there⟩ := Option.bind_eq_some_iff.mp swept
    refine ⟨before, here, ?_⟩
    cases left : registry.unexpiredOf before.queue with
    | nil => simp only [left, reduceCtorEq] at there
    | cons entry rest =>
      simp only [left, Option.some.injEq] at there
      subst there
      exact ⟨rfl, rfl⟩
  refine ⟨?_, ?_, ?_⟩
  · intro consumer member notify waits
    obtain ⟨inbox, here, isNotify⟩ := attended.current consumer member notify waits
    cases left : registry.unexpiredOf inbox.queue with
    | nil =>
      have unawaited := keeps consumer member inbox here left
      rw [isNotify, waits] at unawaited
      cases unawaited
    | cons entry rest =>
      refine ⟨⟨entry :: rest, inbox.notify⟩, ?_, isNotify⟩
      refine Option.bind_eq_some_iff.mpr ⟨inbox, here, ?_⟩
      simp only [left]
  · intro recipient inbox swept isPermitted consumer member
    obtain ⟨before, here, same, -⟩ := kept recipient inbox swept
    rw [← same] at isPermitted ⊢
    exact attended.permitted recipient before here isPermitted consumer member
  · intro recipient inbox swept isAwaited
    obtain ⟨before, here, same, queue⟩ := kept recipient inbox swept
    rw [← same] at isAwaited ⊢
    have enough := attended.enough recipient before here isAwaited
    have shorter := length_unexpiredOf_le registry before.queue
    rw [← queue] at shorter
    exact Nat.le_trans shorter enough

theorem Attended.step (attended : Attended registry fun _ => 0)
    (keeps : KeepsWakeUps registry action) (stepped : relaying.step registry action = some next) :
    Attended next fun _ => 0 := by
  cases action with
  | tick time =>
    cases stepped
    exact ⟨attended.current, attended.permitted, attended.enough⟩
  | push recipient sender body insertedAt choice =>
    simp only [relaying] at stepped
    split at stepped
    · exact attended.push keeps stepped
    · cases stepped
  | popWait recipient wait =>
    cases stepped
    have back : ∀ one ∈ registry.consumers ++ [⟨recipient, registry.clock + wait, .looking false⟩],
        one ∈ registry.consumers ∨ one.stage = .looking false := by
      intro one member
      refine (mem_append.mp member).imp_right fun last => ?_
      rw [mem_singleton.mp last]
    have awaited : ∀ {one : Consumer} {other notify : Nat}, one.stage = .looking false →
        one.waitsOn other notify = false := fun stage => by simp [Consumer.waitsOn, stage]
    refine ⟨fun one member notify waits => ?_, fun other inbox here isPermitted one member => ?_,
      fun other inbox here isAwaited => ?_⟩
    · rcases back one member with before | looks
      · exact attended.current one before notify waits
      · rw [awaited looks] at waits
        cases waits
    · rcases back one member with before | looks
      · exact attended.permitted other inbox here isPermitted one before
      · simp [Consumer.isAsleepOn, looks]
    · obtain ⟨one, member, waits⟩ := isAwaited_iff.mp isAwaited
      rcases back one member with before | looks
      · have enough := attended.enough other inbox here (isAwaited_iff.mpr ⟨one, before, waits⟩)
        refine Nat.le_trans enough (Nat.add_le_add_right (Nat.add_le_add_right ?_ _) _)
        show _ ≤ ((registry.consumers ++ [_]).filter _).length
        rw [filter_append, length_append]
        exact Nat.le_add_right _ _
      · rw [awaited looks] at waits
        cases waits
  | look index =>
    obtain ⟨consumer, found, acted⟩ := bind_consumer stepped
    cases stage : consumer.stage with
    | looking woken =>
      simp only [stage, Option.some.injEq] at acted
      exact acted ▸ attended.look found
    | _ => simp only [stage, reduceCtorEq] at acted
  | wait index =>
    obtain ⟨consumer, found, acted⟩ := bind_consumer stepped
    cases stage : consumer.stage with
    | armed notify =>
      simp only [stage, Option.some.injEq] at acted
      exact acted ▸ attended.wait found stage
    | _ => simp only [stage, reduceCtorEq] at acted
  | wake index =>
    obtain ⟨consumer, found, acted⟩ := bind_consumer stepped
    cases stage : consumer.stage with
    | notified notify =>
      simp only [stage, Option.some.injEq] at acted
      subst acted
      refine attended.leaves found (fun _ => ⟨nofun, nofun⟩) fun other _ => ?_
      simp [Consumer.isWokenOn]
    | _ => simp only [stage, reduceCtorEq] at acted
  | timeOut index =>
    obtain ⟨consumer, found, acted⟩ := bind_consumer stepped
    cases stage : consumer.stage with
    | asleep notify =>
      simp only [stage] at acted
      split at acted
      · cases acted
        refine attended.leaves found (fun _ => ⟨nofun, nofun⟩) fun other woken => ?_
        rw [isWokenOn_of_asleep stage] at woken
        cases woken
      · cases acted
    | _ => simp only [stage, reduceCtorEq] at acted
  | cancel index choice =>
    obtain ⟨consumer, found, acted⟩ := bind_consumer stepped
    exact attended.cancel found keeps acted
  | sweep =>
    cases stepped
    exact attended.sweep keeps

theorem attended_start : Attended Registry.start fun _ => 0 where
  current _ none := absurd none not_mem_nil
  permitted _ _ none := absurd none nofun
  enough _ _ none := absurd none nofun

/-! ### Whole runs -/

/-- In every run the frames go in order, and each leaves its inbox once, for one of three reasons;
and while no step loses a wake-up, no consumer sleeps beside a frame. -/
theorem fifo_and_noneStalls_of_run {final : Registry} {actions : List InboxAction}
    (ran : relaying.run .start actions = some final) :
    Fifo final ∧ (relaying.Along KeepsWakeUps .start actions → NoneStalls final) := by
  constructor
  · exact Machine.invariant (fun state action next fifo _ stepped => Fifo.step fifo stepped)
      fifo_start (Machine.along_true _ _ _) ran
  · intro along
    have kept : ∀ (registry : Registry) (action : InboxAction) (next : Registry),
        (Attended registry fun _ => 0) → KeepsWakeUps registry action →
        relaying.step registry action = some next → Attended next fun _ => 0 :=
      fun registry action next attended keeps stepped => attended.step keeps stepped
    exact (Machine.invariant kept attended_start along ran).noneStalls

/-- No frame is returned to two calls, and each was pushed for the one it is returned to. -/
def ReturnsOnce (registry : Registry) : Prop :=
  ∀ (index other : Nat) (one another : Consumer) (entry : QueueEntry),
    registry.consumers[index]? = some one → registry.consumers[other]? = some another →
    one.stage = .returned entry → another.stage = .returned entry →
      entry ∈ registry.pushed one.recipient ∧ (another.recipient = one.recipient → other = index)

theorem returnsOnce_of_run {final : Registry} {actions : List InboxAction}
    (ran : relaying.run .start actions = some final) : ReturnsOnce final := by
  have fifo : Fifo final := Machine.invariant (fun _ _ _ fifo _ stepped => Fifo.step fifo stepped)
    fifo_start (Machine.along_true _ _ _) ran
  intro index other one another entry found foundOther returns returnsOther
  have gone := fifo.returned index one found entry returns
  have order := fifo.inOrder one.recipient
  refine ⟨order ▸ mem_append_left _ (mem_map_of_mem gone), fun same => ?_⟩
  have goneOther := same ▸ fifo.returned other another foundOther entry returnsOther
  -- The frames that left have the numbers of pushes, so no two of them the same.
  have numbers := fifo.numbered one.recipient ▸ nodup_range
  rw [order, map_append, map_map] at numbers
  have both := inj_on_of_nodup_map numbers.of_append_left goneOther gone rfl
  exact Fate.returned.inj (Prod.mk.inj both).2

end

/-! ### Three ways to lose a wake-up -/

/-- A consumer falls asleep, and is woken by a push. -/
def wokenByPush : List InboxAction :=
  [.popWait 1 10, .look 0, .wait 0, .push 1 2 [7] 0 0, .wake 0, .look 0]

theorem fifo_and_noneStalls_wokenByPush : ∃ final,
    relaying.run .start wokenByPush = some final ∧ Fifo final ∧ NoneStalls final := by
  have ends : (relaying.run .start wokenByPush).isSome = true := by decide +kernel
  obtain ⟨final, ran⟩ := Option.isSome_iff_exists.mp ends
  have both := fifo_and_noneStalls_of_run ran
  exact ⟨final, ran, both.1, both.2 (by decide +kernel)⟩

theorem returnsOnce_wokenByPush : ∃ final,
    relaying.run .start wokenByPush = some final ∧ ReturnsOnce final := by
  have ends : (relaying.run .start wokenByPush).isSome = true := by decide +kernel
  obtain ⟨final, ran⟩ := Option.isSome_iff_exists.mp ends
  exact ⟨final, ran, returnsOnce_of_run ran⟩

/-- The sweep drops the empty inbox that a consumer sleeps on. -/
def sweptUnder : List InboxAction := [.popWait 1 10, .look 0, .wait 0, .sweep, .push 1 2 [7] 0 0]

/-- Two pushes find two consumers that have looked and not waited yet: one permit is stored. -/
def pushedTwice : List InboxAction :=
  [.popWait 1 10, .popWait 1 10, .look 0, .look 1, .push 1 2 [7] 0 0, .push 1 2 [8] 0 0, .wait 0,
    .wait 1, .look 0]

/-- The consumer that was woken is cancelled on its way to the lock. -/
def cancelledAwake : List InboxAction :=
  [.popWait 1 10, .popWait 1 10, .look 0, .look 1, .wait 0, .wait 1, .push 1 2 [7] 0 0, .wake 0,
    .cancel 0 0]

/-- A consumer sleeps early beside a frame, and none of its recipient was woken. -/
def Registry.stalls (registry : Registry) (recipient notify : Nat) : Bool :=
  registry.consumers.any (fun consumer => consumer.isAsleepOn recipient notify &&
    decide (registry.clock < consumer.deadline)) && !(registry.queue recipient).isEmpty &&
    registry.consumers.all fun other => other.recipient ≠ recipient || match other.stage with
      | .looking true | .notified _ => false
      | _ => true

theorem not_noneStalls_of_stalls {registry : Registry} {recipient notify : Nat}
    (stalls : registry.stalls recipient notify = true) : ¬ NoneStalls registry := by
  intro none
  simp only [Registry.stalls, Bool.and_eq_true, any_eq_true, all_eq_true] at stalls
  obtain ⟨⟨⟨consumer, member, sleeps, early⟩, frame⟩, unwoken⟩ := stalls
  simp only [Consumer.isAsleepOn, Bool.and_eq_true, decide_eq_true_eq] at sleeps
  have waiting : registry.queue consumer.recipient ≠ [] := by
    rw [sleeps.1]
    simpa [List.isEmpty_iff] using frame
  obtain ⟨other, otherMember, woken, isWoken⟩ :=
    none consumer member notify sleeps.2 (of_decide_eq_true early) waiting
  have free := unwoken other otherMember
  simp only [Consumer.isWokenOn, sleeps.1, Bool.and_eq_true, Bool.or_eq_true, decide_eq_true_eq]
    at isWoken
  rcases isWoken with ⟨own, looks | notified⟩
  · simp [own, looks] at free
  · simp [own, notified] at free

theorem exists_stalled_of_run {actions : List InboxAction}
    (ends : (relaying.run .start actions).any (fun final => final.stalls 1 0) = true) :
    ∃ final, relaying.run .start actions = some final ∧ ¬ NoneStalls final := by
  obtain ⟨final, ran, stalls⟩ := (Option.any_eq_true _ _).mp ends
  exact ⟨final, ran, not_noneStalls_of_stalls stalls⟩

theorem not_noneStalls_lostWakeUps :
    (∃ final, relaying.run .start sweptUnder = some final ∧ ¬ NoneStalls final) ∧
      (∃ final, relaying.run .start pushedTwice = some final ∧ ¬ NoneStalls final) ∧
      ∃ final, relaying.run .start cancelledAwake = some final ∧ ¬ NoneStalls final := by
  refine ⟨exists_stalled_of_run ?_, exists_stalled_of_run ?_, exists_stalled_of_run ?_⟩
  · decide +kernel
  · decide +kernel
  · decide +kernel

end Oryxis.Relay

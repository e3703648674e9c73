/-
This file is the player of a recorded session: the timeline it makes of the recorded rows, and
the clock it plays them by.

Playing on feeds the emulator what has become due, and so does a jump ahead; a jump back begins
again with a fresh emulator. Either way the emulator shows what a replay from the beginning up to
the clock would show. The clock is exact here, and not a floating-point number.
-/

import Oryxis.Library.Decimal
import Oryxis.Library.Text
import Oryxis.Library.Utf8
import Mathlib.Algebra.Order.Ring.Rat

namespace Oryxis.Recording

open Library List

/-! ### The timeline -/

structure SessionLogEvent where
  offsetMs : Option Int
  kind : Char
  data : List UInt8

inductive PlayerEventKind
  | output (bytes : List UInt8)
  | resize (cols rows : Nat)

structure PlayerEvent where
  atMs : Int
  kind : PlayerEventKind

def legacyDeltaMs : Int := 50

def fallbackGeometry : Nat × Nat := (80, 24)

/-- A sum in 64 bits. -/
def wrapping (ms : Int) : Int := (ms + 2 ^ 63) % 2 ^ 64 - 2 ^ 63

/-- What a row plays; one below a grid of two by two is no size. -/
def SessionLogEvent.plays (row : SessionLogEvent) : Option PlayerEventKind :=
  if row.kind = 'c' then none
  else if row.kind = 'r' then do
    let (cols, rows) ← splitOnce 'x' (fromUtf8Lossy row.data).toList
    let cols ← parseUnsigned (2 ^ 16) cols
    let rows ← parseUnsigned (2 ^ 16) rows
    if 2 ≤ cols ∧ 2 ≤ rows then some (.resize cols rows) else none
  else if row.data.isEmpty then none
  else some (.output row.data)

def eventsFrom : Int → List SessionLogEvent → List PlayerEvent
  | _, [] => []
  | lastMs, row :: rows =>
    match row.plays with
    | none => eventsFrom lastMs rows
    | some kind =>
      let atMs :=
        match row.offsetMs with
        | some ms => max ms lastMs
        | none => wrapping (lastMs + legacyDeltaMs)
      ⟨atMs, kind⟩ :: eventsFrom atMs rows

def PlayerEvent.size : PlayerEvent → Option (Nat × Nat)
  | ⟨_, .resize cols rows⟩ => some (cols, rows)
  | ⟨_, .output _⟩ => none

/-- The events, the duration and the initial geometry. -/
def preprocessEvents (rows : List SessionLogEvent) : List PlayerEvent × Int × Nat × Nat :=
  let events := eventsFrom 0 rows
  (events, (events.getLast?.map PlayerEvent.atMs).getD 0,
    (events.findSome? PlayerEvent.size).getD fallbackGeometry)

/-! ### The player -/

/-- The emulator, which another crate makes. -/
structure Emulator (Screen : Type) where
  fresh : Nat × Nat → Screen
  process : Screen → List UInt8 → Screen
  resize : Screen → Nat × Nat → Screen

structure SessionPlayer (Screen : Type) where
  events : List PlayerEvent
  nextEvent : Nat
  clockMs : Rat
  durationMs : Int
  playing : Bool
  scrub : Option Rat
  speed : Rat
  ticking : Bool
  terminal : Screen
  geometry : Nat × Nat
  initialGeometry : Nat × Nat

def playerSpeeds : List Rat := [1 / 2, 1, 3 / 2, 2, 4]

def maxTickMs : Rat := 250

variable {Screen : Type} (emulator : Emulator Screen)

namespace SessionPlayer

def new (timeline : List PlayerEvent × Int × Nat × Nat) : SessionPlayer Screen where
  events := timeline.1
  nextEvent := 0
  clockMs := 0
  durationMs := timeline.2.1
  playing := true
  scrub := none
  speed := 1
  ticking := false
  terminal := emulator.fresh timeline.2.2
  geometry := timeline.2.2
  initialGeometry := timeline.2.2

variable (player : SessionPlayer Screen)

def finished : Bool := player.events.length ≤ player.nextEvent

def receive (event : PlayerEvent) : SessionPlayer Screen :=
  match event.kind with
  | .output bytes => { player with
      terminal := emulator.process player.terminal bytes, nextEvent := player.nextEvent + 1 }
  | .resize cols rows => { player with
      terminal := emulator.resize player.terminal (cols, rows)
      geometry := (cols, rows)
      nextEvent := player.nextEvent + 1 }

def feedFrom (due : Int) : List PlayerEvent → SessionPlayer Screen → SessionPlayer Screen
  | [], player => player
  | event :: rest, player =>
    if due < event.atMs then player else feedFrom due rest (player.receive emulator event)

def feedDue : SessionPlayer Screen :=
  feedFrom emulator player.clockMs.floor (player.events.drop player.nextEvent) player

def pauseAtEnd : SessionPlayer Screen :=
  if player.finished then { player with playing := false, ticking := false } else player

def advance (dtMs : Rat) : SessionPlayer Screen :=
  ({ player with clockMs := min (player.clockMs + dtMs * player.speed) player.durationMs }.feedDue
    emulator).pauseAtEnd

def clamp (targetMs : Rat) : Rat := max 0 (min targetMs player.durationMs)

def rebuilt : SessionPlayer Screen :=
  { player with
    terminal := emulator.fresh player.initialGeometry
    nextEvent := 0
    geometry := player.initialGeometry }

/-- A jump; a fresh emulator may not come up. -/
def seek (rebuilds : Bool) (targetMs : Rat) : SessionPlayer Screen :=
  let player := { player with scrub := none }
  let target := player.clamp targetMs
  if target < player.clockMs then
    if rebuilds then
      ({ player.rebuilt emulator with clockMs := target }.feedDue emulator).pauseAtEnd
    else player
  else ({ player with clockMs := target }.feedDue emulator).pauseAtEnd

def restart (rebuilds : Bool) : SessionPlayer Screen :=
  { { player with scrub := none }.seek emulator rebuilds 0 with playing := true, ticking := true }

inductive PlayerMessage
  | togglePlay (rebuilds : Bool)
  | restart (rebuilds : Bool)
  | speedCycle
  | seek (rebuilds : Bool) (targetMs : Rat)
  | scrub (targetMs : Rat)
  | scrubCommit (rebuilds : Bool)
  | clockTick (elapsedMs : NNRat)

def cycleSpeed : Rat :=
  let idx := (playerSpeeds.findIdx? fun speed => |speed - player.speed| < 1 / 2 ^ 23).getD 1
  playerSpeeds.getD ((idx + 1) % playerSpeeds.length) 1

def handle : PlayerMessage → SessionPlayer Screen
  | .togglePlay rebuilds =>
    if player.playing then { player with playing := false, ticking := false }
    else if player.finished then player.restart emulator rebuilds
    else { player with playing := true, ticking := true }
  | .restart rebuilds => player.restart emulator rebuilds
  | .speedCycle => { player with speed := player.cycleSpeed }
  | .seek rebuilds targetMs => player.seek emulator rebuilds targetMs
  | .scrub targetMs => { player with scrub := some (player.clamp targetMs) }
  | .scrubCommit rebuilds =>
    match player.scrub with
    | some target => { player with scrub := none }.seek emulator rebuilds target
    | none => player
  | .clockTick elapsedMs =>
    if player.playing then
      { player with ticking := true }.advance emulator
        (if player.ticking then min elapsedMs maxTickMs else 0)
    else player

/-- Opening shows the first frame at once. -/
def opened (rows : List SessionLogEvent) : SessionPlayer Screen :=
  { (new emulator (preprocessEvents rows)).feedDue emulator with ticking := true }

/-! ### What is shown -/

/-- The screen and its size after one more event. -/
def showNext (shown : Screen × Nat × Nat) (event : PlayerEvent) : Screen × Nat × Nat :=
  match event.kind with
  | .output bytes => (emulator.process shown.1 bytes, shown.2)
  | .resize cols rows => (emulator.resize shown.1 (cols, rows), cols, rows)

/-- A replay of events from the beginning. -/
def replay (geometry : Nat × Nat) (events : List PlayerEvent) : Screen × Nat × Nat :=
  events.foldl (showNext emulator) (emulator.fresh geometry, geometry)

def dueAt (clockMs : Rat) (event : PlayerEvent) : Bool := event.atMs ≤ clockMs.floor

/-- The player of a timeline shows a replay up to its clock. -/
structure InStep (timeline : List PlayerEvent × Int × Nat × Nat)
    (player : SessionPlayer Screen) : Prop where
  timeline : (player.events, player.durationMs, player.initialGeometry) = timeline
  next : player.nextEvent = (player.events.takeWhile (dueAt player.clockMs)).length
  shows : (player.terminal, player.geometry) =
    replay emulator player.initialGeometry (player.events.takeWhile (dueAt player.clockMs))
  begun : 0 ≤ player.clockMs
  within : player.clockMs ≤ player.durationMs
  speed : 0 < player.speed

variable {emulator player} {timeline : List PlayerEvent × Int × Nat × Nat}

theorem feedFrom_eq (clockMs : Rat) (rest : List PlayerEvent) (player : SessionPlayer Screen) :
    feedFrom emulator clockMs.floor rest player = { player with
      nextEvent := player.nextEvent + (rest.takeWhile (dueAt clockMs)).length
      terminal := ((rest.takeWhile (dueAt clockMs)).foldl (showNext emulator)
        (player.terminal, player.geometry)).1
      geometry := ((rest.takeWhile (dueAt clockMs)).foldl (showNext emulator)
        (player.terminal, player.geometry)).2 } := by
  induction rest generalizing player with
  | nil => rfl
  | cons event rest inductionHypothesis =>
    rw [feedFrom]
    split_ifs with later
    · rw [takeWhile_cons_of_neg (by simpa [dueAt] using later)]
      rfl
    · rw [takeWhile_cons_of_pos (by simpa [dueAt] using later), inductionHypothesis, foldl_cons,
        length_cons, Nat.add_comm _ 1, ← Nat.add_assoc]
      obtain ⟨at_, bytes | ⟨cols, rows⟩⟩ := event <;> rfl

theorem inStep_feedDue (player : SessionPlayer Screen) {taken rest : List PlayerEvent}
    (isTimeline : (player.events, player.durationMs, player.initialGeometry) = timeline)
    (parts : taken ++ rest = player.events) (next : player.nextEvent = taken.length)
    (shows : (player.terminal, player.geometry) = replay emulator player.initialGeometry taken)
    (due : ∀ event ∈ taken, dueAt player.clockMs event) (begun : 0 ≤ player.clockMs)
    (within : player.clockMs ≤ player.durationMs) (speed : 0 < player.speed) :
    InStep emulator timeline (player.feedDue emulator) := by
  have whole : player.events.takeWhile (dueAt player.clockMs) =
      taken ++ rest.takeWhile (dueAt player.clockMs) := by
    rw [← parts, takeWhile_append_of_pos due]
  have left : player.events.drop player.nextEvent = rest := by
    rw [← parts, next, drop_left]
  rw [feedDue, feedFrom_eq, left]
  refine ⟨isTimeline, ?_, ?_, begun, within, speed⟩
  · show player.nextEvent + _ = (player.events.takeWhile (dueAt player.clockMs)).length
    rw [whole, length_append, next]
  · show (_, _) = replay emulator _ (player.events.takeWhile (dueAt player.clockMs))
    rw [whole, replay, foldl_append, shows]
    rfl

/-- What the controls set is no part of what is shown. -/
theorem InStep.controlled (inStep : InStep emulator timeline player) (playing ticking : Bool)
    (scrub : Option Rat) {speed : Rat} (positive : 0 < speed) :
    InStep emulator timeline
      { player with playing := playing, ticking := ticking, scrub := scrub, speed := speed } :=
  ⟨inStep.timeline, inStep.next, inStep.shows, inStep.begun, inStep.within, positive⟩

theorem InStep.pauseAtEnd (inStep : InStep emulator timeline player) :
    InStep emulator timeline player.pauseAtEnd := by
  unfold SessionPlayer.pauseAtEnd
  split
  · exact inStep.controlled false false player.scrub inStep.speed
  · exact inStep

/-- Playing on, or a jump ahead. -/
theorem InStep.ahead (inStep : InStep emulator timeline player) {clockMs : Rat}
    (later : player.clockMs ≤ clockMs) (within : clockMs ≤ player.durationMs) :
    InStep emulator timeline
      ({ player with clockMs := clockMs }.feedDue emulator).pauseAtEnd := by
  refine (inStep_feedDue { player with clockMs := clockMs } inStep.timeline
    (takeWhile_append_dropWhile ..) inStep.next inStep.shows (fun event member => ?_)
    (le_trans inStep.begun later) within inStep.speed).pauseAtEnd
  have wasDue : dueAt player.clockMs event := mem_takeWhile_imp member
  exact decide_eq_true (le_trans (of_decide_eq_true wasDue) (Rat.floor_monotone later))

theorem InStep.seek (inStep : InStep emulator timeline player) (rebuilds : Bool)
    (targetMs : Rat) : InStep emulator timeline (player.seek emulator rebuilds targetMs) := by
  have long : (0 : Rat) ≤ player.durationMs := le_trans inStep.begun inStep.within
  have within : player.clamp targetMs ≤ player.durationMs := max_le long (min_le_right _ _)
  have quiet := inStep.controlled player.playing player.ticking none inStep.speed
  unfold SessionPlayer.seek
  dsimp only
  split_ifs with back
  · -- A fresh emulator has been fed nothing.
    have nothing : ∀ event ∈ ([] : List PlayerEvent), dueAt (player.clamp targetMs) event :=
      forall_mem_nil _
    exact (inStep_feedDue { { player with scrub := none }.rebuilt emulator with
      clockMs := player.clamp targetMs } inStep.timeline (nil_append _) rfl rfl nothing
        (le_max_left _ _) within inStep.speed).pauseAtEnd
  · exact quiet
  · exact quiet.ahead (not_lt.mp back) within

theorem InStep.restart (inStep : InStep emulator timeline player) (rebuilds : Bool) :
    InStep emulator timeline (player.restart emulator rebuilds) := by
  have sought := (inStep.controlled player.playing player.ticking none inStep.speed).seek rebuilds 0
  exact sought.controlled true true _ sought.speed

theorem cycleSpeed_pos : 0 < player.cycleSpeed := by
  have positive : ∀ speed ∈ playerSpeeds, 0 < speed := by decide +kernel
  have each : ∀ idx, 0 < playerSpeeds.getD idx 1 := by
    intro idx
    rw [getD_eq_getElem?_getD]
    cases found : playerSpeeds[idx]? with
    | none => exact one_pos
    | some speed => exact positive speed (mem_of_getElem? found)
  exact each _

theorem InStep.handle (inStep : InStep emulator timeline player) (message : PlayerMessage) :
    InStep emulator timeline (player.handle emulator message) := by
  cases message with
  | togglePlay rebuilds =>
    rw [SessionPlayer.handle]
    split_ifs
    · exact inStep.controlled false false player.scrub inStep.speed
    · exact inStep.restart rebuilds
    · exact inStep.controlled true true player.scrub inStep.speed
  | restart rebuilds => exact inStep.restart rebuilds
  | speedCycle => exact inStep.controlled player.playing player.ticking player.scrub cycleSpeed_pos
  | seek rebuilds targetMs => exact inStep.seek rebuilds targetMs
  | scrub targetMs =>
    exact inStep.controlled player.playing player.ticking (some _) inStep.speed
  | scrubCommit rebuilds =>
    rw [SessionPlayer.handle]
    split
    · exact (inStep.controlled player.playing player.ticking none inStep.speed).seek rebuilds _
    · exact inStep
  | clockTick elapsedMs =>
    rw [SessionPlayer.handle]
    split_ifs with playing ticking
    · refine (inStep.controlled _ true player.scrub inStep.speed).ahead (le_min ?_ inStep.within)
        (min_le_right _ _)
      exact le_add_of_nonneg_right (mul_nonneg
        (le_min elapsedMs.2 (by decide +kernel)) inStep.speed.le)
    · refine (inStep.controlled _ true player.scrub inStep.speed).ahead (le_min ?_ inStep.within)
        (min_le_right _ _)
      exact le_add_of_nonneg_right (mul_nonneg le_rfl inStep.speed.le)
    · exact inStep

/-! ### A timeline in order -/

/-- The timeline runs forward, unless a row without a time falls past 64 bits. -/
theorem eventsFrom_sorted {lastMs : Int} {rows : List SessionLogEvent} (begun : 0 ≤ lastMs)
    (fits : lastMs + 50 * rows.length < 2 ^ 63)
    (offsetsFit : ∀ row ∈ rows, ∀ ms ∈ row.offsetMs, ms + 50 * rows.length < 2 ^ 63) :
    (lastMs :: (eventsFrom lastMs rows).map PlayerEvent.atMs).Pairwise (· ≤ ·) := by
  induction rows generalizing lastMs with
  | nil => exact pairwise_singleton _ _
  | cons row rows inductionHypothesis =>
    rw [length_cons] at fits offsetsFit
    have fewer : ∀ other ∈ rows, ∀ ms ∈ other.offsetMs, ms + 50 * rows.length < 2 ^ 63 := by
      intro other member ms given
      have := offsetsFit other (mem_cons_of_mem _ member) ms given
      omega
    rw [eventsFrom]
    split
    · exact inductionHypothesis begun (by omega) fewer
    · have next : ∀ atMs : Int, lastMs ≤ atMs → atMs + 50 * rows.length < 2 ^ 63 →
          (lastMs :: atMs :: (eventsFrom atMs rows).map PlayerEvent.atMs).Pairwise (· ≤ ·) := by
        intro atMs later fitsNext
        have rest := inductionHypothesis (le_trans begun later) fitsNext fewer
        refine pairwise_cons.mpr ⟨forall_mem_cons.mpr ⟨later, fun other member => ?_⟩, rest⟩
        exact le_trans later (rel_of_pairwise_cons rest member)
      cases given : row.offsetMs with
      | some ms =>
        have := offsetsFit row mem_cons_self ms given
        exact next (max ms lastMs) (le_max_right ..) (by omega)
      | none =>
        have whole : wrapping (lastMs + legacyDeltaMs) = lastMs + 50 := by
          rw [wrapping, legacyDeltaMs]
          omega
        exact next (wrapping _) (by omega) (by omega)

theorem takeWhile_due {clockMs : Rat} {events : List PlayerEvent}
    (sorted : (events.map PlayerEvent.atMs).Pairwise (· ≤ ·)) :
    events.takeWhile (dueAt clockMs) = events.filter (dueAt clockMs) := by
  induction events with
  | nil => rfl
  | cons event events inductionHypothesis =>
    obtain ⟨first, rest⟩ := pairwise_cons.mp sorted
    by_cases due : dueAt clockMs event
    · rw [takeWhile_cons_of_pos due, filter_cons_of_pos due, inductionHypothesis rest]
    · rw [takeWhile_cons_of_neg due, filter_cons_of_neg due, filter_eq_nil_iff.mpr]
      exact fun later member isDue => due (decide_eq_true
        (le_trans (first _ (mem_map_of_mem member)) (of_decide_eq_true isDue)))

/-! ### Main results -/

variable (emulator)

def played (rows : List SessionLogEvent) (messages : List PlayerMessage) : SessionPlayer Screen :=
  messages.foldl (handle emulator) (opened emulator rows)

def echo : Emulator (List UInt8) where
  fresh _ := []
  process screen bytes := screen ++ bytes
  resize screen _ := screen

def twoRows : List SessionLogEvent := [⟨some 10, 'o', [104]⟩, ⟨none, 'o', [105]⟩]

end SessionPlayer

end Oryxis.Recording

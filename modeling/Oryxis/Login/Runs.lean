/-
This file proves what a runner does over a whole session: for every script, every
sequence of chunks and every sequence of polls.

Each action is logged with what was printed since the previous send and with the step
that was armed. What one poll may do is said once, over the steps whose time was up
when it came; the invariant of the session and the end of a loop of polls follow from
that.
-/

import Oryxis.Login.Script

namespace Oryxis.Login

open Library List

variable {Regex : Type} (matching : Matching Regex)

/-! ### One poll -/

namespace ScriptRunner

/-- The runner with the optional steps skipped that are out of time. -/
def skipExpired (now : Nat) (runner : ScriptRunner Regex) : ScriptRunner Regex :=
  match _armed : runner.steps[runner.idx]? with
  | none => runner
  | some step =>
    if now < runner.deadline ∧ runner.stepDeadline ≤ now ∧ step.optional then
      skipExpired now (runner.skip now)
    else runner
termination_by runner.steps.length - runner.idx
decreasing_by
  have within := (List.getElem?_eq_some_iff.mp _armed).1
  show runner.steps.length - (runner.idx + 1) < runner.steps.length - runner.idx
  omega

/-- What skipping steps leaves as it is, and what is known of the step it ends at. -/
structure Skipped (now : Nat) (before after : ScriptRunner Regex) : Prop where
  steps : after.steps = before.steps
  tail : after.tail = before.tail
  deadline : after.deadline = before.deadline
  done : after.done = before.done
  forward : before.idx ≤ after.idx
  within : before.idx ≤ before.steps.length → after.idx ≤ after.steps.length
  optional : ∀ index step, before.idx ≤ index → index < after.idx →
    before.steps[index]? = some step → step.optional = true
  armed : before.idx = after.idx ∧ after.stepDeadline = before.stepDeadline ∨
    before.idx < after.idx ∧
      ∀ step, before.steps[after.idx]? = some step → after.stepDeadline = now + step.timeout

theorem Skipped.refl (now : Nat) (runner : ScriptRunner Regex) : Skipped now runner runner where
  steps := rfl
  tail := rfl
  deadline := rfl
  done := rfl
  forward := Nat.le_refl _
  within := id
  optional _ _ atLeast below := absurd below (Nat.not_lt.mpr atLeast)
  armed := .inl ⟨rfl, rfl⟩

variable {now : Nat} {runner : ScriptRunner Regex}

theorem skipExpired_of_none (ended : runner.steps[runner.idx]? = none) :
    runner.skipExpired now = runner := by
  rw [skipExpired]
  split
  · rfl
  · rename_i armed
    rw [ended] at armed
    cases armed

variable {step : CompiledStep Regex}

theorem skipExpired_of_some (armed : runner.steps[runner.idx]? = some step) :
    runner.skipExpired now =
      if now < runner.deadline ∧ runner.stepDeadline ≤ now ∧ step.optional then
        (runner.skip now).skipExpired now
      else runner := by
  rw [skipExpired]
  split
  · rename_i ended
    rw [armed] at ended
    cases ended
  · rename_i other isOther
    rw [armed] at isOther
    cases isOther
    rfl

theorem skipped_skipExpired (now : Nat) (runner : ScriptRunner Regex) :
    Skipped now runner (runner.skipExpired now) := by
  induction runner using skipExpired.induct now with
  | case1 runner ended =>
    rw [skipExpired_of_none ended]
    exact Skipped.refl now runner
  | case2 runner step armed expired inductionHypothesis =>
    have within := (List.getElem?_eq_some_iff.mp armed).1
    rw [skipExpired_of_some armed, if_pos expired]
    refine ⟨inductionHypothesis.steps, inductionHypothesis.tail, inductionHypothesis.deadline,
      inductionHypothesis.done, Nat.le_of_succ_le inductionHypothesis.forward,
      fun _ => inductionHypothesis.within within, fun index other atLeast below found => ?_, .inr ?_⟩
    · rcases Nat.eq_or_lt_of_le atLeast with rfl | later
      · rw [armed] at found
        cases found
        exact expired.2.2
      · exact inductionHypothesis.optional index other later below found
    · refine ⟨inductionHypothesis.forward, fun other found => ?_⟩
      rcases inductionHypothesis.armed with ⟨stopped, same⟩ | ⟨_, fresh⟩
      · rw [same]
        show ((runner.steps[runner.idx + 1]?.map fun step => now + step.timeout).getD _) = _
        rw [show runner.idx + 1 = _ from stopped, found]
        rfl
      · exact fresh other found
  | case3 runner step armed fresh =>
    rw [skipExpired_of_some armed, if_neg fresh]
    exact Skipped.refl now runner

/-- What a poll of a runner that is not done comes to, once the expired steps are skipped. -/
inductive Polled (now : Nat) (armed : ScriptRunner Regex) :
    Option RunnerAction × ScriptRunner Regex → Prop where
  | finished (ended : armed.steps[armed.idx]? = none) :
      Polled now armed (some .finished, { armed with done := true })
  | timeout (step : CompiledStep Regex) (found : armed.steps[armed.idx]? = some step) :
      Polled now armed (some (.timeout armed.idx), { armed with done := true })
  | fired (step : CompiledStep Regex) (found : armed.steps[armed.idx]? = some step)
      (inWindow : now < armed.deadline) (inTime : now < armed.stepDeadline) :
      Polled now armed (armed.fire matching now)

theorem poll_of_none (running : runner.done = false) (ended : runner.steps[runner.idx]? = none) :
    runner.poll matching now = (some .finished, { runner with done := true }) := by
  rw [poll, running, if_neg Bool.false_ne_true]
  split
  · rfl
  · rename_i armed
    rw [ended] at armed
    cases armed

theorem poll_of_some (running : runner.done = false) (armed : runner.steps[runner.idx]? = some step) :
    runner.poll matching now =
      if runner.deadline ≤ now then (some (.timeout runner.idx), { runner with done := true })
      else if runner.stepDeadline ≤ now then
        if step.optional then (runner.skip now).poll matching now
        else (some (.timeout runner.idx), { runner with done := true })
      else runner.fire matching now := by
  rw [poll, running, if_neg Bool.false_ne_true]
  split
  · rename_i ended
    rw [armed] at ended
    cases ended
  · rename_i other isOther
    rw [armed] at isOther
    cases isOther
    rfl

theorem polled_poll (running : runner.done = false) :
    Polled matching now (runner.skipExpired now) (runner.poll matching now) := by
  induction runner using skipExpired.induct now with
  | case1 runner ended =>
    rw [skipExpired_of_none ended, poll_of_none matching running ended]
    exact .finished ended
  | case2 runner step armed expired inductionHypothesis =>
    obtain ⟨inWindow, late, optional⟩ := expired
    rw [skipExpired_of_some armed, if_pos ⟨inWindow, late, optional⟩,
      poll_of_some matching running armed, if_neg (Nat.not_le.mpr inWindow), if_pos late,
      if_pos optional]
    exact inductionHypothesis running
  | case3 runner step armed fresh =>
    rw [skipExpired_of_some armed, if_neg fresh, poll_of_some matching running armed]
    by_cases ended : runner.deadline ≤ now
    · rw [if_pos ended]
      exact .timeout step armed
    rw [if_neg ended]
    by_cases late : runner.stepDeadline ≤ now
    · rw [if_pos late, if_neg fun optional => fresh ⟨Nat.not_le.mp ended, late, optional⟩]
      exact .timeout step armed
    rw [if_neg late]
    exact .fired step armed (Nat.not_le.mp ended) (Nat.not_le.mp late)

theorem poll_of_done (ended : runner.done = true) :
    runner.poll matching now = (none, runner) := by
  rw [poll, ended]
  rfl

/-- The step that is hit, and the ones that were passed over for it. -/
theorem hitFrom_eq_some {tail : List Char} {steps : List (CompiledStep Regex)} {start index : Nat}
    {payload : SendPayload} (hit : hitFrom matching tail start steps = some (index, payload)) :
    ∃ offset step, index = start + offset ∧ steps[offset]? = some step ∧ payload = step.send ∧
      step.expect.all (CompiledPattern.matches matching tail) = true ∧
      ∀ earlier other, earlier < offset → steps[earlier]? = some other →
        other.optional = true := by
  induction steps generalizing start with
  | nil => cases hit
  | cons step rest inductionHypothesis =>
    rw [hitFrom] at hit
    by_cases fits : step.expect.all (CompiledPattern.matches matching tail) = true
    · rw [if_pos fits] at hit
      cases hit
      exact ⟨0, step, rfl, rfl, rfl, fits, fun _ _ none => absurd none (Nat.not_lt_zero _)⟩
    rw [if_neg fits] at hit
    by_cases optional : step.optional = true
    · rw [if_pos optional] at hit
      obtain ⟨offset, found, rfl, at_, sent, matched, passed⟩ := inductionHypothesis hit
      refine ⟨offset + 1, found, by omega, at_, sent, matched, fun earlier other before isOther => ?_⟩
      cases earlier with
      | zero =>
        cases isOther
        exact optional
      | succ earlier => exact passed earlier other (by omega) isOther
    · rw [if_neg optional] at hit
      cases hit

end ScriptRunner

/-! ### A session -/

inductive Input where
  | feed (output : List UInt8)
  | poll (now : Nat)

/-- An action, when it was taken, what was printed since the previous send, the step that was armed
and the time it was armed at. -/
structure Acted where
  now : Nat
  action : RunnerAction
  printed : List Char
  armed : Nat
  since : Nat
  deriving DecidableEq, Repr

/-- A runner with the log of what it did. -/
structure Session (Regex : Type) where
  runner : ScriptRunner Regex
  printed : List Char
  since : Nat
  acted : List Acted

def RunnerAction.isSend : RunnerAction → Bool
  | .send _ _ => true
  | _ => false

/-- The step that an action has come to. -/
def RunnerAction.reach (count : Nat) : RunnerAction → Nat
  | .send index _ => index
  | .timeout index => index
  | .finished => count

def Acted.sent? (acted : Acted) : Option Nat :=
  match acted.action with
  | .send index _ => some index
  | _ => none

def sentIndices (acted : List Acted) : List Nat := acted.filterMap Acted.sent?

namespace Session

def polled (now : Nat) (session : Session Regex) : Session Regex :=
  let armed := session.runner.skipExpired now
  let since := if armed.idx = session.runner.idx then session.since else now
  match session.runner.poll matching now with
  | (none, runner) => { session with runner := runner, since := since }
  | (some action, runner) =>
    { runner := runner
      printed := if action.isSend then [] else session.printed
      since := if action.isSend then now else since
      acted := session.acted ++ [⟨now, action, session.printed, armed.idx, since⟩] }

def take (session : Session Regex) : Input → Session Regex
  | .feed output =>
    { session with
      runner := session.runner.feed output
      printed := session.printed ++ stripAnsiLossy output }
  | .poll now => session.polled matching now

def run (session : Session Regex) (inputs : List Input) : Session Regex :=
  inputs.foldl (take matching) session

def start (runner : ScriptRunner Regex) (now : Nat) : Session Regex := ⟨runner, [], now, []⟩

end Session

/-- Every action is in order, in time and for the prompt it is armed for, where a pattern `fits`
what was printed since the previous send. -/
structure AnswersInOrder (fits : CompiledPattern Regex → List Char → Prop)
    (steps : List (CompiledStep Regex)) (deadline : Nat) (acted : List Acted) : Prop where
  increasing : (sentIndices acted).Pairwise (· < ·)
  nonePassedOver : ∀ entry ∈ acted, ∀ index step, index < entry.action.reach steps.length →
    steps[index]? = some step → step.optional = false → index ∈ sentIndices acted
  prompted : ∀ entry ∈ acted, ∀ index payload, entry.action = .send index payload →
    ∃ step, steps[index]? = some step ∧ payload = step.send ∧
      ∀ pattern ∈ step.expect, fits pattern entry.printed
  inTime : ∀ entry ∈ acted, entry.action.isSend = true →
    entry.now < deadline ∧
      ∃ step, steps[entry.armed]? = some step ∧ entry.now < entry.since + step.timeout
  overAtEnd : acted.Pairwise fun earlier _ => earlier.action.isSend = true

/-- The runner after so many polls in a loop. -/
def afterPolls (times : Nat → Nat) (runner : ScriptRunner Regex) : Nat → ScriptRunner Regex
  | 0 => runner
  | count + 1 => ((afterPolls times runner count).poll matching (times count)).2

/-- The whole of what a script that compiles does in a session. -/
def KeepsToScript (fits : CompiledPattern Regex → List Char → Prop) (script : List LoginStep)
    (window now : Nat) (inputs : List Input) : Prop :=
  match ScriptRunner.new matching script window now with
  | .error _ => True
  | .ok runner =>
    let session := (Session.start runner now).run matching inputs
    AnswersInOrder fits runner.steps (now + window) session.acted ∧
      ∀ times, ∃ count, ((afterPolls matching times session.runner count).poll matching
        (times count)).1 = none

/-- A pattern that matches the end of a text, white space aside. -/
def matchesEnd (pattern : CompiledPattern Regex) (printed : List Char) : Prop :=
  match pattern with
  | .suffix text => text <:+ matching.toLowercase (trimEnd printed)
  | .regex compiled => ∃ first ≤ (trimEnd printed).length,
      matching.matchesAt compiled (trimEnd printed) first (trimEnd printed).length = true

/-- A pattern that matches what is kept of a text: a suffix at its end, an expression anywhere. -/
def matchesTail (pattern : CompiledPattern Regex) (printed : List Char) : Prop :=
  pattern.matches matching (trimEnd (trimTail printed)) = true

/-! ### What every session keeps -/

theorem trimTail_append (text more : List Char) :
    trimTail (trimTail text ++ more) = trimTail (text ++ more) := by
  induction text with
  | nil => rfl
  | cons c rest inductionHypothesis =>
    rw [trimTail]
    by_cases fits : utf8Len (c :: rest) ≤ tailCap
    · rw [if_pos fits]
    have long : ¬ utf8Len (c :: (rest ++ more)) ≤ tailCap := by
      simp only [utf8Len, map_cons, map_append, sum_cons, sum_append] at fits ⊢
      omega
    rw [if_neg fits, inductionHypothesis, cons_append, trimTail, if_neg long]

theorem sentIndices_append (acted : List Acted) (entry : Acted) :
    sentIndices (acted ++ [entry]) = sentIndices acted ++ entry.sent?.toList := by
  rw [sentIndices, filterMap_append]
  congr 1

section Append

variable {fits : CompiledPattern Regex → List Char → Prop} {steps : List (CompiledStep Regex)}
  {deadline : Nat} {acted : List Acted} {entry : Acted}

/-- One more action, after sends only. -/
theorem AnswersInOrder.append (answers : AnswersInOrder fits steps deadline acted)
    (sends : ∀ earlier ∈ acted, earlier.action.isSend = true)
    (larger : ∀ index, entry.sent? = some index → ∀ earlier ∈ sentIndices acted, earlier < index)
    (passed : ∀ index step, index < entry.action.reach steps.length → steps[index]? = some step →
      step.optional = false → index ∈ sentIndices acted)
    (prompt : ∀ index payload, entry.action = .send index payload →
      ∃ step, steps[index]? = some step ∧ payload = step.send ∧
        ∀ pattern ∈ step.expect, fits pattern entry.printed)
    (time : entry.action.isSend = true → entry.now < deadline ∧
      ∃ step, steps[entry.armed]? = some step ∧ entry.now < entry.since + step.timeout) :
    AnswersInOrder fits steps deadline (acted ++ [entry]) where
  increasing := by
    rw [sentIndices_append]
    refine pairwise_append.mpr ⟨answers.increasing, ?_, fun earlier member index isSent => ?_⟩
    · cases entry.sent? <;> simp
    · exact larger index (Option.mem_toList.mp isSent) earlier member
  nonePassedOver other member index step below found required := by
    rw [sentIndices_append]
    rcases mem_append.mp member with before | last
    · exact mem_append_left _ (answers.nonePassedOver other before index step below found required)
    · rw [mem_singleton.mp last] at below
      exact mem_append_left _ (passed index step below found required)
  prompted other member := by
    rcases mem_append.mp member with before | last
    · exact answers.prompted other before
    · rw [mem_singleton.mp last]
      exact prompt
  inTime other member := by
    rcases mem_append.mp member with before | last
    · exact answers.inTime other before
    · rw [mem_singleton.mp last]
      exact time
  overAtEnd := pairwise_append.mpr ⟨answers.overAtEnd, pairwise_singleton _ _,
    fun earlier member _ _ => sends earlier member⟩

end Append

/-- The invariant of a session. -/
structure Kept (steps : List (CompiledStep Regex)) (deadline : Nat) (session : Session Regex) :
    Prop where
  sameSteps : session.runner.steps = steps
  sameDeadline : session.runner.deadline = deadline
  within : session.runner.idx ≤ steps.length
  tail : session.runner.done = false → session.runner.tail = trimTail session.printed
  armed : session.runner.done = false → ∀ step, steps[session.runner.idx]? = some step →
    session.runner.stepDeadline = session.since + step.timeout
  sentBefore : ∀ index ∈ sentIndices session.acted, index < session.runner.idx
  passed : ∀ index step, index < session.runner.idx → steps[index]? = some step →
    step.optional = false → index ∈ sentIndices session.acted
  sends : session.runner.done = false → ∀ entry ∈ session.acted, entry.action.isSend = true
  answers : AnswersInOrder (matchesTail matching) steps deadline session.acted

section Keeping

variable {matching}
variable {steps : List (CompiledStep Regex)} {deadline : Nat} {session : Session Regex}

theorem Kept.feed (kept : Kept matching steps deadline session) (output : List UInt8) :
    Kept matching steps deadline (session.take matching (.feed output)) := by
  have fed : session.runner.feed output = session.runner ∧ session.runner.done = true ∨
      session.runner.done = false ∧ session.runner.feed output =
        { session.runner with tail := trimTail (session.runner.tail ++ stripAnsiLossy output) } := by
    rw [ScriptRunner.feed]
    by_cases ended : session.runner.done = true
    · exact .inl ⟨if_pos ended, ended⟩
    · exact .inr ⟨Bool.not_eq_true _ ▸ ended, if_neg ended⟩
  show Kept matching steps deadline { session with
    runner := session.runner.feed output, printed := session.printed ++ stripAnsiLossy output }
  rcases fed with ⟨same, ended⟩ | ⟨running, fed⟩
  · rw [same]
    have never : session.runner.done = false → False := fun running => by
      rw [running] at ended
      cases ended
    exact ⟨kept.sameSteps, kept.sameDeadline, kept.within, fun running => (never running).elim,
      kept.armed, kept.sentBefore, kept.passed, kept.sends, kept.answers⟩
  · rw [fed]
    refine ⟨kept.sameSteps, kept.sameDeadline, kept.within, fun _ => ?_, kept.armed,
      kept.sentBefore, kept.passed, kept.sends, kept.answers⟩
    show trimTail (session.runner.tail ++ stripAnsiLossy output) = _
    rw [kept.tail running, trimTail_append]

/-- The step that is armed once the expired ones are skipped, and what was sent before it. -/
theorem Kept.skip (kept : Kept matching steps deadline session) (running : session.runner.done = false)
    (now : Nat) :
    let armed := session.runner.skipExpired now
    let since := if armed.idx = session.runner.idx then session.since else now
    Kept matching steps deadline { session with runner := armed, since := since } := by
  intro armed since
  have skipped : ScriptRunner.Skipped now session.runner armed :=
    ScriptRunner.skipped_skipExpired now session.runner
  have stepsBefore : session.runner.steps = steps := kept.sameSteps
  refine ⟨skipped.steps.trans stepsBefore, skipped.deadline.trans kept.sameDeadline, ?_,
    fun _ => skipped.tail.trans (kept.tail running), fun _ step found => ?_,
    fun index member => Nat.lt_of_lt_of_le (kept.sentBefore index member) skipped.forward,
    fun index step below found required => ?_, fun _ => kept.sends running, kept.answers⟩
  · have inside := skipped.within (stepsBefore ▸ kept.within)
    rw [skipped.steps, stepsBefore] at inside
    exact inside
  · show armed.stepDeadline =
      (if armed.idx = session.runner.idx then session.since else now) + step.timeout
    rcases skipped.armed with ⟨stayed, same⟩ | ⟨moved, fresh⟩
    · rw [same, if_pos stayed.symm]
      refine kept.armed running step ?_
      rw [stayed]
      exact found
    · rw [if_neg (Nat.ne_of_gt moved)]
      rw [← stepsBefore] at found
      exact fresh step found
  · by_cases before : index < session.runner.idx
    · exact kept.passed index step before found required
    · rw [← stepsBefore] at found
      rw [skipped.optional index step (Nat.not_lt.mp before) below found] at required
      cases required

/-- A poll that ends the run. -/
theorem Kept.over (kept : Kept matching steps deadline session)
    (running : session.runner.done = false) (now : Nat) (action : RunnerAction)
    (ends : action.isSend = false) (reached : action.reach steps.length = session.runner.idx) :
    Kept matching steps deadline
      { runner := { session.runner with done := true }
        printed := session.printed
        since := session.since
        acted := session.acted ++
          [⟨now, action, session.printed, session.runner.idx, session.since⟩] } := by
  have notSent : Acted.sent? ⟨now, action, session.printed, session.runner.idx, session.since⟩ =
      none := by
    cases action with
    | send index payload => cases ends
    | timeout index => rfl
    | finished => rfl
  have sameIndices : sentIndices (session.acted ++
      [⟨now, action, session.printed, session.runner.idx, session.since⟩]) =
      sentIndices session.acted := by
    rw [sentIndices_append, notSent, Option.toList_none, append_nil]
  refine ⟨kept.sameSteps, kept.sameDeadline, kept.within, nofun, nofun, ?_, ?_, nofun,
    kept.answers.append (kept.sends running) ?_ ?_ ?_ ?_⟩
  · rw [sameIndices]
    exact kept.sentBefore
  · rw [sameIndices]
    exact kept.passed
  · intro index isSent
    rw [notSent] at isSent
    cases isSent
  · intro index step below
    refine kept.passed index step ?_
    rw [← reached]
    exact below
  · rintro index payload rfl
    cases ends
  · intro isSend
    rw [ends] at isSend
    cases isSend

/-- A poll that sends. -/
theorem Kept.fired (kept : Kept matching steps deadline session)
    (running : session.runner.done = false) {now : Nat} {step : CompiledStep Regex}
    (found : steps[session.runner.idx]? = some step) (inWindow : now < session.runner.deadline)
    (inTime : now < session.runner.stepDeadline) {index : Nat} {payload : SendPayload}
    (hit : ScriptRunner.hitFrom matching (trimEnd session.runner.tail) session.runner.idx
      (session.runner.steps.drop session.runner.idx) = some (index, payload)) :
    Kept matching steps deadline
      { runner := session.runner.advanceTo (index + 1) now
        printed := []
        since := now
        acted := session.acted ++ [⟨now, .send index payload, session.printed,
          session.runner.idx, session.since⟩] } := by
  obtain ⟨offset, hitStep, rfl, isStep, rfl, matched, passedOver⟩ :=
    ScriptRunner.hitFrom_eq_some matching hit
  rw [kept.sameSteps, getElem?_drop] at isStep
  have below := (List.getElem?_eq_some_iff.mp isStep).1
  have sameIndices : ∀ member, member ∈ sentIndices (session.acted ++ [⟨now,
      .send (session.runner.idx + offset) hitStep.send, session.printed, session.runner.idx,
      session.since⟩]) ↔
      member ∈ sentIndices session.acted ∨ member = session.runner.idx + offset := by
    intro member
    rw [sentIndices_append, mem_append]
    exact or_congr_right mem_singleton
  have passed : ∀ earlier other, earlier < session.runner.idx + offset →
      steps[earlier]? = some other → other.optional = false →
      earlier ∈ sentIndices session.acted := by
    intro earlier other before isOther required
    by_cases old : earlier < session.runner.idx
    · exact kept.passed earlier other old isOther required
    · have skippedOver : other.optional = true := by
        refine passedOver (earlier - session.runner.idx) other (by omega) ?_
        rw [kept.sameSteps, getElem?_drop, Nat.add_sub_cancel' (Nat.not_lt.mp old)]
        exact isOther
      rw [skippedOver] at required
      cases required
  refine ⟨kept.sameSteps, kept.sameDeadline, below, fun _ => rfl, fun _ next isNext => ?_, ?_, ?_,
    fun _ entry member => ?_, kept.answers.append (kept.sends running) ?_ passed ?_ ?_⟩
  · show ((session.runner.steps[session.runner.idx + offset + 1]?.map _).getD _) = _
    rw [kept.sameSteps, show steps[session.runner.idx + offset + 1]? = some next from isNext]
    rfl
  · intro member isMember
    rcases (sameIndices member).mp isMember with old | rfl
    · exact Nat.lt_of_lt_of_le (kept.sentBefore member old) (by
        show session.runner.idx ≤ session.runner.idx + offset + 1
        omega)
    · exact Nat.lt_succ_self _
  · intro earlier other before isOther required
    refine (sameIndices earlier).mpr ?_
    rcases Nat.lt_succ_iff_lt_or_eq.mp before with earlier' | rfl
    · exact .inl (passed earlier other earlier' isOther required)
    · exact .inr rfl
  · rcases mem_append.mp member with old | last
    · exact kept.sends running entry old
    · rw [mem_singleton.mp last]
      rfl
  · intro sent isSent earlier member
    cases isSent
    exact Nat.lt_of_lt_of_le (kept.sentBefore earlier member) (Nat.le_add_right _ _)
  · intro sent payload isSend
    cases isSend
    refine ⟨hitStep, isStep, rfl, fun pattern expected => ?_⟩
    rw [show hitStep.expect = some pattern from expected, kept.tail running] at matched
    exact matched
  · intro _
    refine ⟨kept.sameDeadline ▸ inWindow, step, found, ?_⟩
    rw [← kept.armed running step found]
    exact inTime

theorem Kept.polled (kept : Kept matching steps deadline session) (now : Nat) :
    Kept matching steps deadline (session.polled matching now) := by
  cases running : session.runner.done with
  | true =>
    rw [Session.polled, ScriptRunner.poll_of_done matching running]
    have never : session.runner.done = false → False := fun still => by
      rw [running] at still
      cases still
    exact ⟨kept.sameSteps, kept.sameDeadline, kept.within, fun still => (never still).elim,
      fun still => (never still).elim, kept.sentBefore, kept.passed, kept.sends, kept.answers⟩
  | false =>
    have skipped := kept.skip running now
    have stillRunning : (session.runner.skipExpired now).done = false :=
      (ScriptRunner.skipped_skipExpired now session.runner).done.trans running
    have polled : ScriptRunner.Polled matching now _ _ := ScriptRunner.polled_poll matching running
    rw [Session.polled]
    generalize session.runner.poll matching now = result at polled
    cases polled with
    | finished ended =>
      refine skipped.over stillRunning now .finished rfl ?_
      rw [List.getElem?_eq_none_iff, (ScriptRunner.skipped_skipExpired now session.runner).steps,
        kept.sameSteps] at ended
      exact Nat.le_antisymm ended skipped.within
    | timeout step found => exact skipped.over stillRunning now (.timeout _) rfl rfl
    | fired step found inWindow inTime =>
      rw [ScriptRunner.fire]
      have foundHere : steps[(session.runner.skipExpired now).idx]? = some step := by
        rw [← skipped.sameSteps]
        exact found
      cases hit : ScriptRunner.hitFrom matching (trimEnd (session.runner.skipExpired now).tail)
          (session.runner.skipExpired now).idx
          ((session.runner.skipExpired now).steps.drop (session.runner.skipExpired now).idx) with
      | none => exact skipped
      | some sent => exact skipped.fired stillRunning foundHere inWindow inTime hit

theorem Kept.run (kept : Kept matching steps deadline session) (inputs : List Input) :
    Kept matching steps deadline (session.run matching inputs) := by
  induction inputs generalizing session with
  | nil => exact kept
  | cons input inputs inductionHypothesis =>
    cases input with
    | feed output => exact inductionHypothesis (kept.feed output)
    | poll now => exact inductionHypothesis (kept.polled now)

end Keeping

theorem kept_start {script : List LoginStep} {window now : Nat} {runner : ScriptRunner Regex}
    (compiled : ScriptRunner.new matching script window now = .ok runner) :
    Kept matching runner.steps (now + window) (Session.start runner now) := by
  rw [ScriptRunner.new] at compiled
  cases steps : compileSteps matching 0 script with
  | error error =>
    rw [steps] at compiled
    cases compiled
  | ok steps' =>
    rw [steps] at compiled
    cases compiled
    refine ⟨rfl, rfl, Nat.zero_le _, fun _ => rfl, fun _ step first => ?_, nofun, nofun, nofun,
      ⟨.nil, nofun, nofun, nofun, .nil⟩⟩
    cases steps' with
    | nil => cases first
    | cons head rest =>
      cases first
      rfl

/-! ### A loop of polls -/

namespace ScriptRunner

/-- The number of actions that a runner may still produce. -/
def left (runner : ScriptRunner Regex) : Nat :=
  runner.steps.length - runner.idx + (if runner.done then 0 else 1)

theorem left_poll_lt {now : Nat} {runner : ScriptRunner Regex} {action : RunnerAction}
    (acts : (runner.poll matching now).1 = some action) :
    (runner.poll matching now).2.left < runner.left := by
  cases running : runner.done with
  | true =>
    rw [poll_of_done matching running] at acts
    cases acts
  | false =>
    have skipped := skipped_skipExpired now runner
    have shorter : (runner.skipExpired now).steps.length - (runner.skipExpired now).idx ≤
        runner.steps.length - runner.idx := by
      rw [skipped.steps]
      exact Nat.sub_le_sub_left skipped.forward _
    have whole : runner.left = runner.steps.length - runner.idx + 1 := by
      rw [left, running]
      rfl
    have polled : Polled matching now _ _ := polled_poll matching running
    generalize runner.poll matching now = result at polled acts
    rw [whole]
    cases polled with
    | finished ended => exact Nat.lt_succ_of_le shorter
    | timeout step found => exact Nat.lt_succ_of_le shorter
    | fired step found inWindow inTime =>
      rw [fire] at acts ⊢
      cases hit : hitFrom matching (trimEnd (runner.skipExpired now).tail)
          (runner.skipExpired now).idx
          ((runner.skipExpired now).steps.drop (runner.skipExpired now).idx) with
      | none =>
        rw [hit] at acts
        cases acts
      | some sent =>
        obtain ⟨offset, hitStep, isIndex, isStep, _⟩ := hitFrom_eq_some matching hit
        rw [getElem?_drop] at isStep
        have below := (List.getElem?_eq_some_iff.mp isStep).1
        have stillRunning : (runner.skipExpired now).done = false := skipped.done.trans running
        show (runner.skipExpired now).steps.length - (sent.1 + 1) +
          (if (runner.skipExpired now).done then 0 else 1) < _
        rw [stillRunning, isIndex, if_neg Bool.false_ne_true]
        omega

/-- Polled in a loop, a runner comes to have nothing to do. -/
theorem exists_poll_eq_none (runner : ScriptRunner Regex) (times : Nat → Nat) :
    ∃ count, ((afterPolls matching times runner count).poll matching (times count)).1 = none := by
  by_contra always
  have falls : ∀ count, (afterPolls matching times runner count).left + count ≤ runner.left := by
    intro count
    induction count with
    | zero => exact Nat.le_refl _
    | succ count inductionHypothesis =>
      obtain ⟨action, acts⟩ := Option.ne_none_iff_exists'.mp fun none => always ⟨count, none⟩
      have less : (afterPolls matching times runner (count + 1)).left <
          (afterPolls matching times runner count).left := left_poll_lt matching acts
      omega
  have tooMany := falls (runner.left + 1)
  omega

end ScriptRunner

/-! ### The session as a whole -/

/-- Every script keeps to its steps in every session: a step is sent at most once, in order and in
time, none that is required is passed over, and a pattern is answered where the end of what was
printed since the previous send ends with it, or, an expression, where that end holds a match. -/
theorem keepsToScript_matchesTail (script : List LoginStep) (window now : Nat)
    (inputs : List Input) :
    KeepsToScript matching (matchesTail matching) script window now inputs := by
  rw [KeepsToScript]
  cases compiled : ScriptRunner.new matching script window now with
  | error error => trivial
  | ok runner =>
    have kept : Kept matching runner.steps (now + window)
        ((Session.start runner now).run matching inputs) := (kept_start matching compiled).run inputs
    exact ⟨kept.answers, fun times => ScriptRunner.exists_poll_eq_none matching _ times⟩

/-- Expressions without metacharacters. -/
def literal : Matching (List Char) where
  toLowercase := List.map Char.toLower
  compile := some
  matchesAt pattern text first last := decide ((text.take last).drop first = pattern)

def anyLogin : List LoginStep := [⟨some (.regex "login".toList), .secret .connectionPassword, 0, false⟩]

/-- "login incorrect", in one chunk. -/
def loginIncorrect : List Input :=
  [.feed (("login incorrect".toList).map fun c => c.toNat.toUInt8), .poll 0]

/-- An expression that is not anchored is answered with more text after its match. -/
theorem not_keepsToScript_matchesEnd :
    ¬ KeepsToScript literal (matchesEnd literal) anyLogin 60000 0 loginIncorrect := by
  rintro ⟨answers, _⟩
  have sent : (⟨0, .send 0 (.secret .connectionPassword), "login incorrect".toList, 0, 0⟩ : Acted) ∈
      ((Session.start (⟨[⟨some (.regex "login".toList), .secret .connectionPassword, 10000, false⟩],
        0, [], 60000, 10000, false⟩ : ScriptRunner (List Char)) 0).run literal
          loginIncorrect).acted := by
    decide +kernel
  obtain ⟨step, found, _, fits⟩ := answers.prompted _ sent 0 _ rfl
  cases found
  obtain ⟨first, within, atEnd⟩ := fits _ rfl
  revert first
  decide +kernel

end Oryxis.Login

/-
This file is how an agent's command is run over a pool of connections, and when a call runs
it on a second connection after the first may have run it too.

A call is retried on what a failure's text says and on whether the link is still alive when
that is looked at, afterwards. A call makes two attempts at most. The second follows a first
that got its channel exactly where the link is gone after a failed write, or where the exec
request stays unanswered: its failure reads like that of an unanswered open.
-/

import Mathlib.Data.List.Infix

namespace Oryxis.Mcp.Pool

/-! ### One connection -/

inductive SshError where
  | channel (why : List Char)
  | execTimeout (secs : Nat)
  | cancelled
  /-- What only a dial ends with. -/
  | dial (why : List Char)

structure ExecResult where
  exitCode : Nat
  stdout : List Char
  stderr : List Char

/-- How a round trip ends. -/
inductive Reply where
  | done
  | failed (error : List Char)
  | unanswered
  deriving DecidableEq, Repr

inductive Ending where
  | finished (result : ExecResult)
  | timedOut
  | cancelled

/-- How a connection and its server behave in one call. -/
structure Conduct where
  /-- The connection was closed on this side before. -/
  closed : Bool
  channelOpen : Reply
  execRequest : Reply
  /-- The error of a write, if it fails. -/
  data : Option (List Char)
  eof : Option (List Char)
  ending : Ending
  /-- What the link reads as when a failure is looked at. -/
  aliveAfter : Bool

def openTimeoutSecs : Nat := 10

def openTimedOut : List Char :=
  "channel open timed out after ".toList ++ Nat.toDigits 10 openTimeoutSecs ++ ['s']

namespace Conduct

/-- One command on a connection. The channel open and the exec request share a timeout. -/
def execCapture (conduct : Conduct) (stdin : Option (List UInt8)) (runTimeout : Nat) :
    Except SshError ExecResult :=
  if conduct.closed then .error (.channel "connection closed".toList)
  else
    match conduct.channelOpen with
    | .failed error => .error (.channel ("open session: ".toList ++ error))
    | .unanswered => .error (.channel openTimedOut)
    | .done =>
      match conduct.execRequest with
      | .failed error => .error (.channel ("exec: ".toList ++ error))
      | .unanswered => .error (.channel openTimedOut)
      | .done =>
        match stdin.bind fun _ => conduct.data with
        | some error => .error (.channel ("stdin: ".toList ++ error))
        | none =>
          match stdin.bind fun _ => conduct.eof with
          | some error => .error (.channel ("stdin eof: ".toList ++ error))
          | none =>
            match conduct.ending with
            | .finished result => .ok result
            | .timedOut => .error (.execTimeout runTimeout)
            | .cancelled => .error .cancelled

/-- The channel was opened, and the exec request made. -/
def opened (conduct : Conduct) : Bool := !conduct.closed && conduct.channelOpen = .done

end Conduct

inductive ChannelVerdict where
  | dead
  | refused
  | other

def channelVerdict (why : List Char) (alive : Bool) : ChannelVerdict :=
  if !alive || "channel open timed out".toList.isPrefixOf why || why = "connection closed".toList then
    .dead
  else if "open session:".toList.isPrefixOf why then
    if "Failed to open channel".toList <:+: why then .refused else .dead
  else .other

/-! ### A call -/

structure DialPlan where
  label : List Char
  endpoint : List Char
  signature : Nat

structure PoolFailure where
  label : List Char
  endpoint : List Char
  stage : List Char
  error : SshError

structure PoolRun where
  label : List Char
  endpoint : List Char
  reused : Bool
  result : ExecResult

/-- The connection in a host's slot. -/
structure Live where
  conn : Nat
  signature : Nat
  alive : Bool

inductive Dialled where
  | connected (conn : Nat)
  | failed (failure : PoolFailure)
  | cancelled

/-- What one attempt meets: the wait for the slot and what other calls left in it, a fresh dial, and
how the connection it gets behaves. -/
structure Turn where
  slotCancelled : Bool
  slot : Option Live
  dialled : Dialled
  conduct : Conduct

/-- One connection that a command was tried on, and the exec request sent there. -/
structure Attempt where
  conn : Nat
  opened : Bool
  request : Option (List Char)
  deriving DecidableEq, Repr

namespace DialPlan

variable (plan : DialPlan)

def fail (stage : String) (error : SshError) : PoolFailure :=
  ⟨plan.label, plan.endpoint, stage.toList, error⟩

/-- A fresh connection. -/
def dial (turn : Turn) : Except PoolFailure Nat :=
  match turn.dialled with
  | .connected conn => .ok conn
  | .failed failure => .error failure
  | .cancelled => .error (plan.fail "connect" .cancelled)

/-- The pooled connection, unless it is the one that was refused, or else a fresh one; and whether it
is reused. -/
def acquire (refused : Option Nat) (turn : Turn) : Except PoolFailure (Nat × Bool) :=
  if turn.slotCancelled then .error (plan.fail "connect" .cancelled)
  else
    match turn.slot with
    | some live =>
      if live.signature = plan.signature ∧ live.alive = true ∧ refused ≠ some live.conn then
        .ok (live.conn, true)
      else (plan.dial turn).map fun conn => (conn, false)
    | none => (plan.dial turn).map fun conn => (conn, false)

end DialPlan

section Exec

variable (plan : DialPlan) (command : List Char) (stdin : Option (List UInt8)) (runTimeout : Nat)

def attempt (conn : Nat) (conduct : Conduct) : Attempt :=
  ⟨conn, conduct.opened, if conduct.opened then some command else none⟩

/-- The end of a call, with the attempts that were made. -/
abbrev Outcome := Except PoolFailure PoolRun × List Attempt

/-- The command on a connection of its own. -/
def execOverflow (turn : Turn) : Outcome :=
  match plan.dial turn with
  | .error failure => (.error failure, [])
  | .ok conn =>
    let tried := attempt command conn turn.conduct
    match turn.conduct.execCapture stdin runTimeout with
    | .ok result => (.ok ⟨plan.label, plan.endpoint, false, result⟩, [tried])
    | .error error => (.error (plan.fail "exec" error), [tried])

/-- The loop of a call, where `refused` is the connection that was found gone. -/
def execLoop (refused : Option Nat) (turns : Nat → Turn) : Outcome :=
  match plan.acquire refused (turns 0) with
  | .error failure => (.error failure, [])
  | .ok (conn, reused) =>
    let conduct := (turns 0).conduct
    let tried := attempt command conn conduct
    match conduct.execCapture stdin runTimeout with
    | .ok result => (.ok ⟨plan.label, plan.endpoint, reused, result⟩, [tried])
    | .error (.channel why) =>
      if _first : reused = true ∧ refused = none then
        match channelVerdict why conduct.aliveAfter with
        | .dead =>
          let rest := execLoop (some conn) fun later => turns (later + 1)
          (rest.1, tried :: rest.2)
        | .refused =>
          let rest := execOverflow plan command stdin runTimeout (turns 1)
          (rest.1, tried :: rest.2)
        | .other => (.error (plan.fail "exec" (.channel why)), [tried])
      else (.error (plan.fail "exec" (.channel why)), [tried])
    | .error error => (.error (plan.fail "exec" error), [tried])
termination_by if refused.isNone then 1 else 0
decreasing_by
  rw [_first.2]
  exact Nat.one_pos

def exec (turns : Nat → Turn) : Outcome := execLoop plan command stdin runTimeout none turns

end Exec

/-! ### What a failure says -/

/-- A channel that was opened, and the command's end lost with the link or unanswered. -/
def Conduct.LosesCommand (conduct : Conduct) (stdin : Option (List UInt8)) : Prop :=
  conduct.execRequest = .unanswered ∨
    conduct.aliveAfter = false ∧
      ((∃ error, conduct.execRequest = .failed error) ∨
        conduct.execRequest = .done ∧ stdin.isSome = true ∧
          (conduct.data.isSome = true ∨ conduct.eof.isSome = true))

theorem channelVerdict_openTimedOut (alive : Bool) : channelVerdict openTimedOut alive = .dead := by
  cases alive <;> rfl

/-- A failure behind the open is no reason to go on while the link lives. -/
theorem channelVerdict_of_alive {start error : List Char}
    (isStart : start = "exec: ".toList ∨ start = "stdin: ".toList ∨ start = "stdin eof: ".toList) :
    channelVerdict (start ++ error) true = .other := by
  rcases isStart with rfl | rfl | rfl <;> rfl

section Opened

variable {conduct : Conduct} {stdin : Option (List UInt8)}

/-- What a call on an opened channel fails with where it loses the command. -/
theorem dead_of_losesCommand (runTimeout : Nat) (opened : conduct.opened = true)
    (loses : conduct.LosesCommand stdin) :
    ∃ why, conduct.execCapture stdin runTimeout = .error (.channel why) ∧
      channelVerdict why conduct.aliveAfter = .dead := by
  rw [Conduct.opened, Bool.and_eq_true, Bool.not_eq_true', decide_eq_true_eq] at opened
  rw [Conduct.execCapture, opened.1, opened.2, if_neg Bool.false_ne_true]
  rcases loses with unanswered | ⟨gone, ⟨error, failed⟩ | ⟨done, given, lost⟩⟩
  · rw [unanswered]
    exact ⟨openTimedOut, rfl, channelVerdict_openTimedOut _⟩
  · rw [failed, gone]
    exact ⟨_, rfl, rfl⟩
  · obtain ⟨bytes, rfl⟩ := Option.isSome_iff_exists.mp given
    rw [done, gone]
    cases isData : conduct.data with
    | some error => exact ⟨_, rfl, rfl⟩
    | none =>
      rw [isData, Option.isSome_none] at lost
      obtain ⟨error, isEof⟩ := Option.isSome_iff_exists.mp (lost.resolve_left Bool.false_ne_true)
      rw [isEof]
      exact ⟨_, rfl, rfl⟩

/-- Where it does not lose the command, its failure ends the call. -/
theorem other_of_not_losesCommand {runTimeout : Nat} (opened : conduct.opened = true)
    (keeps : ¬conduct.LosesCommand stdin) {why : List Char}
    (failed : conduct.execCapture stdin runTimeout = .error (.channel why)) :
    channelVerdict why conduct.aliveAfter = .other := by
  rw [Conduct.opened, Bool.and_eq_true, Bool.not_eq_true', decide_eq_true_eq] at opened
  rw [Conduct.execCapture, opened.1, opened.2, if_neg Bool.false_ne_true] at failed
  rw [Conduct.LosesCommand, not_or, not_and] at keeps
  cases isRequest : conduct.execRequest with
  | unanswered => exact absurd isRequest keeps.1
  | failed error =>
    rw [isRequest] at failed
    cases failed
    cases alive : conduct.aliveAfter with
    | true => exact channelVerdict_of_alive (.inl rfl)
    | false => exact absurd (.inl ⟨error, isRequest⟩) (keeps.2 alive)
  | done =>
    rw [isRequest] at failed
    cases stdin with
    | none =>
      dsimp only [Option.bind_none] at failed
      split at failed <;> cases failed
    | some bytes =>
      dsimp only [Option.bind_some] at failed
      have alive : conduct.data.isSome = true ∨ conduct.eof.isSome = true →
          conduct.aliveAfter = true := fun lost =>
        Bool.not_eq_false _ ▸ fun gone => keeps.2 gone (.inr ⟨isRequest, rfl, lost⟩)
      cases isData : conduct.data with
      | some error =>
        rw [isData] at failed
        cases failed
        rw [alive (.inl (by rw [isData]; rfl))]
        exact channelVerdict_of_alive (.inr (.inl rfl))
      | none =>
        simp only [isData] at failed
        cases isEof : conduct.eof with
        | some error =>
          rw [isEof] at failed
          cases failed
          rw [alive (.inr (by rw [isEof]; rfl))]
          exact channelVerdict_of_alive (.inr (.inr rfl))
        | none =>
          simp only [isEof] at failed
          split at failed <;> cases failed

end Opened

/-! ### The attempts of a call -/

section Attempts

variable {plan : DialPlan} {command : List Char} {stdin : Option (List UInt8)} {runTimeout : Nat}
  {turns : Nat → Turn}

theorem length_execOverflow_le (turn : Turn) :
    (execOverflow plan command stdin runTimeout turn).2.length ≤ 1 := by
  rw [execOverflow]
  split
  · exact Nat.zero_le 1
  · dsimp only
    split <;> exact Nat.le_refl 1

/-- After a connection was found gone there is one attempt more, if a connection is had. -/
theorem attempts_execLoop_some (refused : Nat) (turns : Nat → Turn) :
    (execLoop plan command stdin runTimeout (some refused) turns).2 =
      match plan.acquire (some refused) (turns 0) with
      | .error _ => []
      | .ok got => [attempt command got.1 (turns 0).conduct] := by
  rw [execLoop]
  cases plan.acquire (some refused) (turns 0) with
  | error failure => rfl
  | ok got =>
    dsimp only
    split
    · rfl
    · rw [dif_neg]
      rintro ⟨-, none⟩
      cases none
    · rfl

variable {conn : Nat}

theorem attempts_exec_of_fresh (acquired : plan.acquire none (turns 0) = .ok (conn, false)) :
    (exec plan command stdin runTimeout turns).2 = [attempt command conn (turns 0).conduct] := by
  rw [exec, execLoop, acquired]
  dsimp only
  split
  · rfl
  · rw [dif_neg]
    rintro ⟨same, -⟩
    cases same
  · rfl

/-- On the pooled connection an opened channel is followed by a second attempt where the command is
lost. -/
theorem attempts_exec_of_loses (acquired : plan.acquire none (turns 0) = .ok (conn, true))
    (opened : (turns 0).conduct.opened = true) (loses : (turns 0).conduct.LosesCommand stdin) :
    (exec plan command stdin runTimeout turns).2 =
      attempt command conn (turns 0).conduct ::
        (execLoop plan command stdin runTimeout (some conn) fun later => turns (later + 1)).2 := by
  obtain ⟨why, failed, verdict⟩ := dead_of_losesCommand runTimeout opened loses
  rw [exec, execLoop, acquired]
  dsimp only
  rw [failed]
  dsimp only
  rw [dif_pos ⟨rfl, rfl⟩, verdict]

theorem attempts_exec_of_keeps (acquired : plan.acquire none (turns 0) = .ok (conn, true))
    (opened : (turns 0).conduct.opened = true) (keeps : ¬(turns 0).conduct.LosesCommand stdin) :
    (exec plan command stdin runTimeout turns).2 = [attempt command conn (turns 0).conduct] := by
  rw [exec, execLoop, acquired]
  dsimp only
  split
  · rfl
  · rename_i why failed
    rw [dif_pos ⟨rfl, rfl⟩, other_of_not_losesCommand opened keeps failed]
  · rfl

/-- Whatever happens, the pooled connection is tried first and at most one other after it. -/
theorem attempts_exec_of_reused (acquired : plan.acquire none (turns 0) = .ok (conn, true)) :
    ∃ later, (exec plan command stdin runTimeout turns).2 =
      attempt command conn (turns 0).conduct :: later ∧ later.length ≤ 1 := by
  rw [exec, execLoop, acquired]
  dsimp only
  split
  · exact ⟨[], rfl, Nat.zero_le 1⟩
  · rename_i why failed
    rw [dif_pos ⟨rfl, rfl⟩]
    split
    · refine ⟨_, rfl, ?_⟩
      rw [attempts_execLoop_some]
      split
      · exact Nat.zero_le 1
      · exact Nat.le_refl 1
    · exact ⟨_, rfl, length_execOverflow_le _⟩
    · exact ⟨[], rfl, Nat.zero_le 1⟩
  · exact ⟨[], rfl, Nat.zero_le 1⟩

end Attempts

/-! ### Main result -/

/-- Two attempts at most, and no exec request after a channel that was opened. -/
structure RunsOnce (attempts : List Attempt) : Prop where
  two : attempts.length ≤ 2
  once : attempts.Pairwise fun earlier later =>
    later.request.isSome = true → earlier.opened = false

/-- The pooled connection gives its channel and loses the command, and the next attempt gets a channel
too. -/
def RunsTwice (plan : DialPlan) (stdin : Option (List UInt8)) (turns : Nat → Turn) : Prop :=
  ∃ conn, plan.acquire none (turns 0) = .ok (conn, true) ∧ (turns 0).conduct.opened = true ∧
    (turns 0).conduct.LosesCommand stdin ∧
    ∃ got, plan.acquire (some conn) (turns 1) = .ok got ∧ (turns 1).conduct.opened = true

theorem runsOnce_singleton (tried : Attempt) : RunsOnce [tried] :=
  ⟨Nat.le_succ 1, List.pairwise_singleton _ _⟩

theorem request_attempt (command : List Char) (conn : Nat) (conduct : Conduct) :
    (attempt command conn conduct).request.isSome = conduct.opened := by
  rw [attempt]
  cases conduct.opened <;> rfl

/-- A command is run on one connection at most, exactly where the pooled connection does not lose it
on an opened channel before another channel is had. -/
theorem runsOnce_exec_iff (plan : DialPlan) (command : List Char) (stdin : Option (List UInt8))
    (runTimeout : Nat) (turns : Nat → Turn) :
    RunsOnce (exec plan command stdin runTimeout turns).2 ↔ ¬RunsTwice plan stdin turns := by
  cases acquired : plan.acquire none (turns 0) with
  | error failure =>
    have none : (exec plan command stdin runTimeout turns).2 = [] := by
      rw [exec, execLoop, acquired]
    rw [none]
    refine iff_of_true ⟨Nat.zero_le 2, .nil⟩ ?_
    rintro ⟨conn, same, -⟩
    rw [acquired] at same
    cases same
  | ok got =>
    obtain ⟨conn, reused⟩ := got
    cases reused with
    | false =>
      rw [attempts_exec_of_fresh acquired]
      refine iff_of_true (runsOnce_singleton _) ?_
      rintro ⟨other, same, -⟩
      rw [acquired] at same
      cases same
    | true =>
      cases opened : (turns 0).conduct.opened with
      | false =>
        obtain ⟨later, attempts, short⟩ : ∃ later,
            (exec plan command stdin runTimeout turns).2 =
              attempt command conn (turns 0).conduct :: later ∧ later.length ≤ 1 :=
          attempts_exec_of_reused acquired
        rw [attempts]
        refine iff_of_true ⟨Nat.succ_le_succ short, ?_⟩ ?_
        · refine List.pairwise_cons.mpr ⟨fun _ _ _ => opened, ?_⟩
          cases later with
          | nil => exact .nil
          | cons tried others =>
            rw [List.eq_nil_of_length_eq_zero (Nat.le_zero.mp (Nat.le_of_succ_le_succ short))]
            exact List.pairwise_singleton _ _
        · rintro ⟨-, -, other, -⟩
          rw [opened] at other
          cases other
      | true =>
        by_cases loses : (turns 0).conduct.LosesCommand stdin
        · rw [attempts_exec_of_loses acquired opened loses, attempts_execLoop_some]
          cases next : plan.acquire (some conn) (turns 1) with
          | error failure =>
            refine iff_of_true (runsOnce_singleton _) ?_
            rintro ⟨other, same, -, -, got, isGot, -⟩
            rw [acquired] at same
            cases same
            rw [next] at isGot
            cases isGot
          | ok got =>
            constructor
            · rintro ⟨-, once⟩ ⟨-, -, -, -, -, -, again⟩
              have first := (List.pairwise_cons.mp once).1 _ List.mem_cons_self
                ((request_attempt command got.1 _).trans again)
              rw [attempt, opened] at first
              cases first
            · intro single
              refine ⟨Nat.le_refl 2, List.pairwise_pair.mpr fun requested => ?_⟩
              rw [request_attempt] at requested
              exact absurd ⟨conn, acquired, opened, loses, got, next, requested⟩ single
        · rw [attempts_exec_of_keeps acquired opened loses]
          refine iff_of_true (runsOnce_singleton _) ?_
          rintro ⟨-, -, -, lost, -⟩
          exact loses lost

/-- A pooled connection that opens its channel and leaves the exec request unanswered, and fresh
ones that work. -/
def unansweredRequest (index : Nat) : Turn :=
  if index = 0 then
    ⟨false, some ⟨0, 7, true⟩, .cancelled,
      ⟨false, .done, .unanswered, none, none, .timedOut, true⟩⟩
  else
    ⟨false, none, .connected index,
      ⟨false, .done, .done, none, none, .finished ⟨0, [], []⟩, true⟩⟩

/-- The exec request is made on two connections. -/
theorem runsTwice_unansweredRequest :
    (exec ⟨[], [], 7⟩ "reboot".toList none 60 unansweredRequest).2 =
        [⟨0, true, some "reboot".toList⟩, ⟨1, true, some "reboot".toList⟩] ∧
      ¬RunsOnce (exec ⟨[], [], 7⟩ "reboot".toList none 60 unansweredRequest).2 := by
  have attempts : (exec ⟨[], [], 7⟩ "reboot".toList none 60 unansweredRequest).2 =
      [⟨0, true, some "reboot".toList⟩, ⟨1, true, some "reboot".toList⟩] := by
    decide +kernel
  refine ⟨attempts, fun once => ?_⟩
  rw [attempts] at once
  have first := (List.pairwise_cons.mp once.once).1 _ List.mem_cons_self rfl
  cases first

end Oryxis.Mcp.Pool

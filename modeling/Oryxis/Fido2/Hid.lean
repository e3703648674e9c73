/-
This file models CTAPHID framing: a message is cut into packets of 64 bytes, the first one with a
command and the total length and the others with a sequence number, and a reply is put together
from the packets a token answers, among packets of other channels, keepalives and errors. What is
assembled so far is described by an initial packet and the continuations taken, a sublist of what
was received; one received packet keeps the description, and so does every run. A message the
sender writes is assembled to its payload through any interleaving with packets of no concern.
-/

import Mathlib.Data.List.Basic
import Mathlib.Algebra.Ring.Nat

namespace Oryxis.Fido2

open List

inductive Error where
  | unsupported (what : String)
  | deviceNotFound (why : String)
  | transport (why : String)
  | pinRequired
  | pinInvalid (retries : Nat)
  | pinBlocked (advice : String)
  | pinNotSet
  | userVerificationBlocked
  | touchTimeout
  | cancelled
  | credentialNotFound
  | unsupportedByToken (why : String)
  | malformed (why : String)
  deriving DecidableEq, Repr

inductive TokenEvent where
  | touchNeeded
  | verificationNeeded
  deriving DecidableEq, Repr

/-! ### Packets -/

abbrev hidPacketLen : Nat := 64

structure Packet where
  bytes : List UInt8
  length_bytes : bytes.length = hidPacketLen
  deriving DecidableEq

namespace Packet

/-- The byte at an index inside the packet. -/
def byte (packet : Packet) (i : Fin hidPacketLen) : UInt8 :=
  packet.bytes.get (i.cast packet.length_bytes.symm)

/-- The bytes of a range, or nothing for a range that leaves the packet. -/
def slice (packet : Packet) (start count : Nat) : Option (List UInt8) :=
  if start + count ≤ packet.bytes.length then some ((packet.bytes.drop start).take count) else none

/-- A packet with these bytes in front and zeros behind them. -/
def padded (front : List UInt8) : Packet where
  bytes := (front ++ List.replicate hidPacketLen 0).take hidPacketLen
  length_bytes := by
    rw [length_take, length_append, length_replicate]
    exact Nat.min_eq_left (Nat.le_add_left _ _)

end Packet

def cmdMsg : UInt8 := 0x83

def cmdCbor : UInt8 := 0x90

def cmdCancel : UInt8 := 0x91

def cmdKeepalive : UInt8 := 0xbb

def cmdError : UInt8 := 0xbf

def keepaliveUpNeeded : UInt8 := 1

def keepaliveUvNeeded : UInt8 := 2

def fromBe16 (high low : UInt8) : Nat := high.toNat * 256 + low.toNat

def toBe16 (value : Nat) : List UInt8 := [UInt8.ofNat (value / 256), UInt8.ofNat value]

def fromBe32 (a b c d : UInt8) : Nat :=
  ((a.toNat * 256 + b.toNat) * 256 + c.toNat) * 256 + d.toNat

def toBe32 (value : UInt32) : List UInt8 :=
  [UInt8.ofNat (value.toNat / 2 ^ 24), UInt8.ofNat (value.toNat / 2 ^ 16),
    UInt8.ofNat (value.toNat / 2 ^ 8), UInt8.ofNat value.toNat]

/-- The channel a packet belongs to. -/
def Packet.channel (packet : Packet) : Nat :=
  fromBe32 (packet.byte 0) (packet.byte 1) (packet.byte 2) (packet.byte 3)

/-- The total length an initial packet announces. -/
def Packet.announced (packet : Packet) : Nat := fromBe16 (packet.byte 5) (packet.byte 6)

/-! ### Sending -/

/-- The continuation packets of the rest of a payload. -/
def continuations (channel : UInt32) (seq : UInt8) (rest : List UInt8) : List Packet :=
  if _more : rest = [] then []
  else
    let take := min rest.length (hidPacketLen - 5)
    .padded (toBe32 channel ++ [seq] ++ rest.take take)
      :: continuations channel (seq + 1) (rest.drop take)
termination_by rest.length
decreasing_by
  have some := length_pos_iff.mpr _more
  rw [length_drop]
  change rest.length - min rest.length 59 < rest.length
  omega

/-- Frame a payload into the packets of a message. -/
def send (channel : UInt32) (command : UInt8) (payload : List UInt8) :
    Except Error (List Packet) :=
  if hidPacketLen - 7 + 128 * (hidPacketLen - 5) < payload.length then
    .error (.malformed "CTAPHID message too long")
  else
    let first := min payload.length (hidPacketLen - 7)
    .ok (.padded (toBe32 channel ++ [command] ++ toBe16 payload.length ++ payload.take first)
      :: continuations channel 0 (payload.drop first))

/-! ### Receiving -/

/-- A byte in hexadecimal, two digits wide. -/
def hex (byte : UInt8) : String :=
  String.ofList [Nat.digitChar (byte.toNat / 16), Nat.digitChar (byte.toNat % 16)]

def mapHidError (code : UInt8) : Error :=
  if code = 0x05 then .touchTimeout
  else if code = 0x06 then .transport "the security key is busy"
  else if code = 0x0b then
    .transport ("the security key did not recognise the channel; it may have been " ++
      "reset or claimed by another program")
  else .transport ("CTAPHID error 0x" ++ hex code)

/-- What is put together of a reply so far, and what was announced to the person. -/
structure Assembly where
  assembled : List UInt8
  expected : Option Nat
  nextSeq : UInt8
  announced : Option TokenEvent
  events : List TokenEvent

namespace Assembly

def start : Assembly := ⟨[], none, 0, none, []⟩

def announce (event : TokenEvent) (state : Assembly) : Assembly :=
  { state with announced := some event, events := state.events ++ [event] }

def continued (bytes : List UInt8) (state : Assembly) : Assembly :=
  { state with assembled := state.assembled ++ bytes, nextSeq := state.nextSeq + 1 }

def begun (bytes : List UInt8) (len : Nat) (state : Assembly) : Assembly :=
  { state with assembled := state.assembled ++ bytes, expected := some len, nextSeq := 0 }

end Assembly

/-- What one turn of the loop comes to; `panic` is an index outside a packet. -/
inductive Turn where
  | loop (state : Assembly)
  | done (result : Except Error (List UInt8))
  | panic

/-- A packet that follows the initial one of a message in flight. -/
def continuation (want : Nat) (packet : Packet) (state : Assembly) : Turn :=
  if packet.byte 4 ≠ state.nextSeq then
    .done (.error (.transport ("the security key sent sequence " ++ toString (packet.byte 4)
      ++ " where " ++ toString state.nextSeq ++ " was expected")))
  else
    match packet.slice 5 (min (want - state.assembled.length) (hidPacketLen - 5)) with
    | none => .panic
    | some bytes =>
      let next := state.continued bytes
      if want ≤ next.assembled.length then .done (.ok next.assembled) else .loop next

/-- An initial packet: a command, a two-byte total length, payload. -/
def initial (packet : Packet) (state : Assembly) : Turn :=
  if packet.byte 4 ≠ cmdCbor ∧ packet.byte 4 ≠ cmdMsg then
    .done (.error (.transport ("unexpected CTAPHID command 0x" ++ hex (packet.byte 4)
      ++ " from the security key")))
  else
    let len := packet.announced
    match packet.slice 7 (min len (hidPacketLen - 7)) with
    | none => .panic
    | some bytes =>
      let next := state.begun bytes len
      if len ≤ next.assembled.length then .done (.ok next.assembled) else .loop next

/-- A packet that was read. -/
def receive (channel : UInt32) (human : Bool) (packet : Packet) (state : Assembly) : Turn :=
  if packet.channel ≠ channel.toNat then .loop state
  else if packet.byte 4 = cmdKeepalive then
    let event :=
      if packet.byte 7 = keepaliveUvNeeded then some TokenEvent.verificationNeeded
      else if packet.byte 7 = keepaliveUpNeeded then some TokenEvent.touchNeeded
      else none
    match event with
    | none => .loop state
    | some event =>
      if human && state.announced != some event then .loop (state.announce event)
      else .loop state
  else if packet.byte 4 = cmdError then .done (.error (mapHidError (packet.byte 7)))
  else
    match state.expected with
    | some want => continuation want packet state
    | none => initial packet state

/-- What the loop finds at a turn: the request was cancelled, its time is over, or what reading
came to. -/
inductive Poll where
  | cancelled
  | expired
  | failed (error : Error)
  | nothing
  | packet (packet : Packet)

/-- What comes of the turns: the loop goes on, it ended, or it indexed outside a packet. -/
inductive Outcome where
  | waiting (state : Assembly)
  | ended (result : Except Error (List UInt8)) (events : List TokenEvent)
  | panicked

/-- The turns of the loop. -/
def turns (channel : UInt32) (human : Bool) (state : Assembly) : List Poll → Outcome
  | [] => .waiting state
  | .cancelled :: _ => .ended (.error .cancelled) state.events
  | .expired :: _ =>
    .ended (.error (if human then .touchTimeout
      else .transport "the security key did not answer in time")) state.events
  | .failed error :: _ => .ended (.error error) state.events
  | .nothing :: polls => turns channel human state polls
  | .packet packet :: polls =>
    match receive channel human packet state with
    | .loop next => turns channel human next polls
    | .done result => .ended result state.events
    | .panic => .panicked

/-- The packets written to give up on a request. -/
def cancelPackets (channel : UInt32) : List Packet :=
  match send channel cmdCancel [] with
  | .ok packets => packets
  | .error _ => []

/-- What the loop writes: the turn that gives a request up tells the token as well. -/
def written (channel : UInt32) (human : Bool) (state : Assembly) : List Poll → List Packet
  | [] => []
  | .cancelled :: _ | .expired :: _ => cancelPackets channel
  | .failed _ :: _ => []
  | .nothing :: polls => written channel human state polls
  | .packet packet :: polls =>
    match receive channel human packet state with
    | .loop next => written channel human next polls
    | .done _ | .panic => []

/-- A call: the packets written for the request, and what comes of the token's answers. -/
def callCommand (channel : UInt32) (command : UInt8) (payload : List UInt8) (human : Bool)
    (polls : List Poll) : List Packet × Outcome :=
  match send channel command payload with
  | .error error => ([], .ended (.error error) [])
  | .ok packets =>
    (packets ++ written channel human .start polls, turns channel human .start polls)

/-! ### Reading a packet -/

theorem byte_eq (packet : Packet) (i : Fin hidPacketLen) :
    packet.byte i = packet.bytes.getD i 0 := by
  have inside : (i : Nat) < packet.bytes.length := packet.length_bytes.symm ▸ i.isLt
  rw [getD_eq_getElem?_getD, getElem?_eq_getElem inside]
  rfl

/-- A range inside the packet is read. -/
theorem slice_inside (packet : Packet) {start count : Nat}
    (inside : start + count ≤ hidPacketLen) :
    packet.slice start count = some ((packet.bytes.drop start).take count) := by
  rw [Packet.slice, if_pos (by rw [packet.length_bytes]; exact inside)]

/-- As much as is wanted of the packet from an index on. -/
theorem slice_rest (packet : Packet) {start : Nat} (inside : start ≤ hidPacketLen)
    (wanted : Nat) :
    packet.slice start (min wanted (hidPacketLen - start))
      = some ((packet.bytes.drop start).take wanted) := by
  have short : start + min wanted (hidPacketLen - start) ≤ hidPacketLen :=
    Nat.le_trans (Nat.add_le_add_left (Nat.min_le_right _ _) start)
      (Nat.le_of_eq (Nat.add_sub_cancel' inside))
  have rest : (packet.bytes.drop start).length = hidPacketLen - start := by
    rw [length_drop, packet.length_bytes]
  rw [slice_inside _ short, ← take_take, take_of_length_le (Nat.le_of_eq rest)]

theorem bytes_padded (front : List UInt8) :
    (Packet.padded front).bytes
      = (front ++ List.replicate hidPacketLen 0).take hidPacketLen := rfl

/-- A byte of what a packet was filled with. -/
theorem byte_padded (front : List UInt8) (i : Fin hidPacketLen) (inside : i < front.length) :
    (Packet.padded front).byte i = front.getD i 0 := by
  rw [byte_eq, bytes_padded, getD_eq_getElem?_getD, getElem?_take_of_lt i.isLt,
    getElem?_append_left inside, ← getD_eq_getElem?_getD]

/-- The data behind the header a packet was filled with. -/
theorem slice_padded (header data : List UInt8)
    (inside : header.length + data.length ≤ hidPacketLen) :
    (Packet.padded (header ++ data)).slice header.length data.length = some data := by
  rw [slice_inside _ inside, bytes_padded, drop_take, take_take,
    Nat.min_eq_left (by omega), append_assoc, drop_left, take_left]

theorem length_toBe32 (value : UInt32) : (toBe32 value).length = 4 := rfl

theorem fromBe32_toBe32 (value : UInt32) :
    fromBe32 ((toBe32 value).getD 0 0) ((toBe32 value).getD 1 0) ((toBe32 value).getD 2 0)
      ((toBe32 value).getD 3 0) = value.toNat := by
  have small := value.toNat_lt
  simp only [toBe32, getD_cons_zero, getD_cons_succ, fromBe32, UInt8.toNat_ofNat']
  omega

theorem fromBe16_toBe16 {value : Nat} (small : value < 65536) :
    fromBe16 ((toBe16 value).getD 0 0) ((toBe16 value).getD 1 0) = value := by
  simp only [toBe16, getD_cons_zero, getD_cons_succ, fromBe16, UInt8.toNat_ofNat']
  omega

/-- A packet filled with a channel is of that channel. -/
theorem channel_padded (channel : UInt32) (rest : List UInt8) :
    (Packet.padded (toBe32 channel ++ rest)).channel = channel.toNat := by
  have long (i : Nat) (early : i < 4) : i < (toBe32 channel ++ rest).length := by
    rw [length_append, length_toBe32]
    omega
  rw [Packet.channel, byte_padded _ 0 (long 0 (by decide)), byte_padded _ 1 (long 1 (by decide)),
    byte_padded _ 2 (long 2 (by decide)), byte_padded _ 3 (long 3 (by decide))]
  exact fromBe32_toBe32 channel

/-! ### A message through noise -/

/-- What may come between two packets of a message: nothing, a packet of another channel, a
keepalive. -/
def Noise (channel : UInt32) : Poll → Prop
  | .nothing => True
  | .packet packet => packet.channel ≠ channel.toNat ∨ packet.byte 4 = cmdKeepalive
  | .cancelled | .expired | .failed _ => False

/-- The packets in order, with noise before, between and after them. -/
inductive Interleaved (channel : UInt32) : List Packet → List Poll → Prop where
  | nil : Interleaved channel [] []
  | noise {packets : List Packet} {poll : Poll} {polls : List Poll} :
      Noise channel poll → Interleaved channel packets polls →
        Interleaved channel packets (poll :: polls)
  | packet {packet : Packet} {packets : List Packet} {polls : List Poll} :
      Interleaved channel packets polls →
        Interleaved channel (packet :: packets) (.packet packet :: polls)

/-- Noise leaves what is assembled alone. -/
theorem turns_noise {channel : UInt32} {poll : Poll} (noise : Noise channel poll) (human : Bool)
    (state : Assembly) (polls : List Poll) :
    ∃ next : Assembly, next.assembled = state.assembled ∧ next.expected = state.expected ∧
      next.nextSeq = state.nextSeq ∧
      turns channel human state (poll :: polls) = turns channel human next polls := by
  cases poll with
  | cancelled | expired | failed _ => exact noise.elim
  | nothing => exact ⟨state, rfl, rfl, rfl, rfl⟩
  | packet packet =>
    by_cases foreign : packet.channel = channel.toNat
    · have keepalive : packet.byte 4 = cmdKeepalive := noise.resolve_left (not_not_intro foreign)
      have received : receive channel human packet state = .loop state ∨
          ∃ event, receive channel human packet state = .loop (state.announce event) := by
        rw [receive, if_neg (not_not_intro foreign), if_pos keepalive]
        generalize (if packet.byte 7 = keepaliveUvNeeded then some TokenEvent.verificationNeeded
          else if packet.byte 7 = keepaliveUpNeeded then some TokenEvent.touchNeeded
          else none) = event
        cases event with
        | none => exact .inl rfl
        | some event =>
          by_cases new : human && state.announced != some event
          · exact .inr ⟨event, if_pos new⟩
          · exact .inl (if_neg new)
      obtain same | ⟨event, announced⟩ := received
      · exact ⟨state, rfl, rfl, rfl, by rw [turns, same]⟩
      · exact ⟨state.announce event, rfl, rfl, rfl, by rw [turns, announced]⟩
    · exact ⟨state, rfl, rfl, rfl, by rw [turns, receive, if_pos foreign]⟩

variable {state : Assembly}

variable {data : List UInt8}

/-- A continuation in its turn is taken. -/
theorem receive_continuation (channel : UInt32) (human : Bool) {want : Nat}
    (expected : state.expected = some want) (early : state.nextSeq.toNat < 128)
    (size : data.length = min (want - state.assembled.length) (hidPacketLen - 5)) :
    receive channel human (.padded (toBe32 channel ++ [state.nextSeq] ++ data)) state
      = if want ≤ (state.assembled ++ data).length then .done (.ok (state.assembled ++ data))
        else .loop (state.continued data) := by
  have small : data.length ≤ 59 := size ▸ Nat.min_le_right _ _
  have sequence : (Packet.padded (toBe32 channel ++ [state.nextSeq] ++ data)).byte 4
      = state.nextSeq := byte_padded _ 4 (by
    rw [length_append, length_append, length_toBe32]
    exact Nat.lt_of_lt_of_le (by decide : 4 < 4 + 1) (Nat.le_add_right _ _))
  have notKeepalive : state.nextSeq ≠ cmdKeepalive := by
    intro same
    exact absurd (same ▸ early) (by decide)
  have notError : state.nextSeq ≠ cmdError := by
    intro same
    exact absurd (same ▸ early) (by decide)
  have read := slice_padded (toBe32 channel ++ [state.nextSeq]) data
    (show 5 + data.length ≤ 64 by omega)
  have ours := channel_padded channel ([state.nextSeq] ++ data)
  rw [← append_assoc] at ours
  rw [receive, if_neg (not_not_intro ours), sequence, if_neg notKeepalive, if_neg notError,
    expected]
  dsimp only
  rw [continuation, sequence, if_neg (not_not_intro rfl), ← size]
  rw [show (toBe32 channel ++ [state.nextSeq]).length = 5 from rfl] at read
  rw [read]
  rfl

variable {command : UInt8}

/-- The initial packet of a message is taken. -/
theorem receive_initial (channel : UInt32) (human : Bool) {len : Nat}
    (expected : state.expected = none) (known : command = cmdCbor ∨ command = cmdMsg)
    (short : len < 65536) (size : data.length = min len (hidPacketLen - 7)) :
    receive channel human (.padded (toBe32 channel ++ [command] ++ toBe16 len ++ data)) state
      = if len ≤ (state.assembled ++ data).length then .done (.ok (state.assembled ++ data))
        else .loop (state.begun data len) := by
  have small : data.length ≤ 57 := size ▸ Nat.min_le_right _ _
  have long (i : Nat) (early : i < 7) :
      i < (toBe32 channel ++ [command] ++ toBe16 len ++ data).length := by
    rw [length_append]
    exact Nat.lt_of_lt_of_le early (Nat.le_add_right 7 _)
  have first : (Packet.padded (toBe32 channel ++ [command] ++ toBe16 len ++ data)).byte 4
      = command := byte_padded _ 4 (long 4 (by decide))
  have announced :
      (Packet.padded (toBe32 channel ++ [command] ++ toBe16 len ++ data)).announced = len := by
    rw [Packet.announced, byte_padded _ 5 (long 5 (by decide)),
      byte_padded _ 6 (long 6 (by decide))]
    exact fromBe16_toBe16 short
  have read := slice_padded (toBe32 channel ++ [command] ++ toBe16 len) data
    (show 7 + data.length ≤ 64 by omega)
  have ours := channel_padded channel ([command] ++ (toBe16 len ++ data))
  rw [← append_assoc, ← append_assoc] at ours
  have notKeepalive : command ≠ cmdKeepalive := by
    rcases known with rfl | rfl <;> decide
  have notError : command ≠ cmdError := by
    rcases known with rfl | rfl <;> decide
  rw [receive, if_neg (not_not_intro ours), first, if_neg notKeepalive, if_neg notError, expected]
  dsimp only
  rw [initial, first, if_neg (by rcases known with rfl | rfl <;> decide), announced]
  dsimp only
  rw [← size]
  rw [show (toBe32 channel ++ [command] ++ toBe16 len).length = 7 from rfl] at read
  rw [read]
  rfl

theorem continuations_cons {channel : UInt32} {seq : UInt8} {rest : List UInt8}
    (more : rest ≠ []) :
    continuations channel seq rest
      = .padded (toBe32 channel ++ [seq] ++ rest.take (min rest.length (hidPacketLen - 5)))
        :: continuations channel (seq + 1) (rest.drop (min rest.length (hidPacketLen - 5))) := by
  rw [continuations, dif_neg more]

variable {packets : List Packet} {polls : List Poll}

/-- The continuations of a rest bring it, behind what was assembled before them. -/
theorem turns_continuations {channel : UInt32} (interleaved : Interleaved channel packets polls)
    (human : Bool) (later : List Poll) :
    ∀ (rest : List UInt8) (state : Assembly), rest ≠ [] →
      packets = continuations channel state.nextSeq rest →
      state.expected = some (state.assembled.length + rest.length) →
      state.nextSeq.toNat * 59 + rest.length ≤ 128 * 59 →
      ∃ events, turns channel human state (polls ++ later)
        = .ended (.ok (state.assembled ++ rest)) events := by
  induction interleaved with
  | nil =>
    intro rest state more same
    rw [continuations_cons more] at same
    exact absurd same.symm (cons_ne_nil _ _)
  | @noise packets poll polls noise _ ih =>
    intro rest state more same expected room
    obtain ⟨next, assembled, wanted, sequence, run⟩ :=
      turns_noise noise human state (polls ++ later)
    rw [cons_append, run, ← assembled]
    refine ih rest next more ?_ ?_ ?_
    · rw [sequence, same]
    · rw [wanted, expected, assembled]
    · rw [sequence]
      exact room
  | @packet packet packets polls _ ih =>
    intro rest state more same expected room
    have some := length_pos_iff.mpr more
    rw [continuations_cons more, cons.injEq] at same
    obtain ⟨rfl, remaining⟩ := same
    have size : (rest.take (min rest.length (hidPacketLen - 5))).length
        = min (state.assembled.length + rest.length - state.assembled.length)
          (hidPacketLen - 5) := by
      rw [length_take, Nat.add_sub_cancel_left, Nat.min_eq_left (Nat.min_le_left _ _)]
    have taken := receive_continuation channel human expected
      (show state.nextSeq.toNat < 128 by omega) size
    rw [cons_append, turns, taken, length_append, size, Nat.add_sub_cancel_left]
    by_cases last : rest.length ≤ hidPacketLen - 5
    · rw [Nat.min_eq_left last, take_length, if_pos (Nat.le_refl _)]
      exact ⟨_, rfl⟩
    · have full : min rest.length (hidPacketLen - 5) = 59 := Nat.min_eq_right (by omega)
      have long : 59 < rest.length := Nat.lt_of_not_le last
      rw [full] at remaining ⊢
      rw [if_neg (by omega)]
      have number : (state.nextSeq + 1).toNat = state.nextSeq.toNat + 1 := by
        rw [UInt8.toNat_add, UInt8.toNat_one, Nat.mod_eq_of_lt (by omega)]
      obtain ⟨events, run⟩ := ih (rest.drop 59) (state.continued (rest.take 59))
        (by
          rw [Ne, drop_eq_nil_iff]
          omega)
        remaining
        (by
          simp only [Assembly.continued, expected, length_append, length_take,
            length_drop]
          congr 1
          omega)
        (by
          simp only [Assembly.continued, number, length_drop]
          omega)
      refine ⟨events, run.trans ?_⟩
      rw [Assembly.continued, append_assoc, take_append_drop]

/-- The packets of a message bring its payload. -/
theorem turns_message {channel : UInt32} {payload : List UInt8}
    (sent : send channel command payload = .ok packets)
    (known : command = cmdCbor ∨ command = cmdMsg) (interleaved : Interleaved channel packets polls)
    (human : Bool) (later : List Poll) :
    ∀ state : Assembly, state.assembled = [] → state.expected = none →
      ∃ events, turns channel human state (polls ++ later) = .ended (.ok payload) events := by
  rw [send] at sent
  split at sent
  · cases sent
  · rename_i fits
    have short : payload.length ≤ 57 + 128 * 59 := Nat.le_of_not_lt fits
    rw [Except.ok.injEq] at sent
    induction interleaved with
    | nil => exact absurd sent (cons_ne_nil _ _)
    | @noise packets poll polls noise _ ih =>
      intro state empty fresh
      obtain ⟨next, assembled, wanted, _, run⟩ := turns_noise noise human state (polls ++ later)
      rw [cons_append, run]
      exact ih sent next (assembled.trans empty) (wanted.trans fresh)
    | @packet packet packets polls rest _ =>
      intro state empty fresh
      rw [cons.injEq] at sent
      obtain ⟨rfl, remaining⟩ := sent
      have size : (payload.take (min payload.length (hidPacketLen - 7))).length
          = min payload.length (hidPacketLen - 7) := by
        rw [length_take, Nat.min_eq_left (Nat.min_le_left _ _)]
      have taken := receive_initial channel human fresh known
        (show payload.length < 65536 by omega) size
      rw [cons_append, turns, taken, empty, nil_append, size]
      by_cases last : payload.length ≤ hidPacketLen - 7
      · rw [Nat.min_eq_left last, take_length, if_pos (Nat.le_refl _)]
        exact ⟨_, rfl⟩
      · have full : min payload.length (hidPacketLen - 7) = 57 := Nat.min_eq_right (by omega)
        have long : 57 < payload.length := Nat.lt_of_not_le last
        rw [full] at remaining ⊢
        rw [if_neg (by omega)]
        obtain ⟨events, run⟩ := turns_continuations rest human later (payload.drop 57)
          (state.begun (payload.take 57) payload.length)
          (by
            rw [Ne, drop_eq_nil_iff]
            omega)
          remaining.symm
          (by
            simp only [Assembly.begun, empty, nil_append, length_take,
              length_drop]
            congr 1
            omega)
          (by
            simp only [Assembly.begun, length_drop, UInt8.toNat_zero]
            omega)
        refine ⟨events, run.trans ?_⟩
        rw [Assembly.begun, empty, nil_append, take_append_drop]

/-! ### What is assembled from any answers -/

/-- The packets bytes were assembled from: an initial packet and continuations of this channel, in
the order they were received, numbered from zero without a gap, and of their data no more than was
announced. -/
structure Taken (channel : UInt32) (received : List Packet) (first : Packet) (rest : List Packet)
    (bytes : List UInt8) : Prop where
  inOrder : (first :: rest).Sublist received
  ours : ∀ packet ∈ first :: rest, packet.channel = channel.toNat
  command : first.byte 4 = cmdCbor ∨ first.byte 4 = cmdMsg
  sequence : rest.map (fun packet => (packet.byte 4).toNat) = List.range rest.length
  data : bytes = (first.bytes.drop 7 ++ rest.flatMap fun packet => packet.bytes.drop 5).take
    first.announced

namespace Taken

variable {channel : UInt32} {received : List Packet} {first : Packet} {rest : List Packet}
  {bytes : List UInt8}

theorem length_le (taken : Taken channel received first rest bytes) :
    bytes.length ≤ first.announced := by
  rw [taken.data, length_take]
  exact Nat.min_le_left _ _

theorem later (taken : Taken channel received first rest bytes) (more : List Packet) :
    Taken channel (received ++ more) first rest bytes :=
  { taken with inOrder := taken.inOrder.trans (sublist_append_left _ _) }

/-- While bytes are missing, all data of the packets was taken. -/
theorem all (taken : Taken channel received first rest bytes)
    (missing : bytes.length < first.announced) :
    bytes = first.bytes.drop 7 ++ rest.flatMap fun packet => packet.bytes.drop 5 := by
  have short := missing
  rw [taken.data, length_take] at short
  rw [taken.data, take_of_length_le (by omega)]

/-- The next continuation is taken. -/
theorem continued (taken : Taken channel received first rest bytes)
    (missing : bytes.length < first.announced) {packet : Packet}
    (ours : packet.channel = channel.toNat) (number : (packet.byte 4).toNat = rest.length) :
    Taken channel (received ++ [packet]) first (rest ++ [packet])
      (bytes ++ (packet.bytes.drop 5).take (first.announced - bytes.length)) where
  inOrder := by
    rw [← cons_append]
    exact taken.inOrder.append (Sublist.refl _)
  ours := by
    intro other among
    rw [← cons_append, mem_append, mem_singleton] at among
    obtain before | rfl := among
    · exact taken.ours other before
    · exact ours
  command := taken.command
  sequence := by
    rw [map_append, taken.sequence, map_singleton, number, length_append,
      length_singleton, range_succ]
  data := by
    have whole := taken.all missing
    have enough : bytes.length ≤ first.announced := Nat.le_of_lt missing
    rw [flatMap_append, flatMap_singleton, ← append_assoc, ← whole,
      take_append, take_of_length_le enough]

end Taken

/-- What holds of the loop's state after these packets were received. -/
def Assembly.Framed (channel : UInt32) (received : List Packet) (state : Assembly) : Prop :=
  match state.expected with
  | none => state.assembled = []
  | some want => ∃ first rest, Taken channel received first rest state.assembled ∧
      want = first.announced ∧ state.assembled.length < want ∧
      state.nextSeq.toNat = rest.length ∧ rest.length ≤ cmdKeepalive.toNat

/-- A reply is what was taken, as long as was announced. -/
def Replied (channel : UInt32) (received : List Packet) (bytes : List UInt8) : Prop :=
  ∃ first rest, Taken channel received first rest bytes ∧ bytes.length = first.announced

def Turn.Framed (channel : UInt32) (received : List Packet) : Turn → Prop
  | .loop state => state.Framed channel received
  | .done (.ok bytes) => Replied channel received bytes
  | .done (.error _) => True
  | .panic => False

def Outcome.Framed (channel : UInt32) (received : List Packet) : Outcome → Prop
  | .waiting state => state.Framed channel received
  | .ended (.ok bytes) _ => Replied channel received bytes
  | .ended (.error _) _ => True
  | .panicked => False

theorem Assembly.Framed.later {channel : UInt32} {received : List Packet}
    (framed : state.Framed channel received) (more : List Packet) :
    state.Framed channel (received ++ more) := by
  rw [Assembly.Framed] at framed ⊢
  cases expected : state.expected with
  | none => simpa only [expected] using framed
  | some want =>
    rw [expected] at framed
    obtain ⟨first, rest, taken, rest_of⟩ := framed
    exact ⟨first, rest, taken.later more, rest_of⟩

variable {packet : Packet}

/-- A packet that may begin a message. -/
theorem initial_framed {channel : UInt32} {received : List Packet}
    (ours : packet.channel = channel.toNat) (empty : state.assembled = []) :
    (initial packet state).Framed channel (received ++ [packet]) := by
  rw [initial]
  by_cases unknown : packet.byte 4 ≠ cmdCbor ∧ packet.byte 4 ≠ cmdMsg
  · rw [if_pos unknown]
    trivial
  · rw [if_neg unknown]
    dsimp only
    rw [slice_rest packet (by decide : 7 ≤ hidPacketLen)]
    dsimp only
    have known : packet.byte 4 = cmdCbor ∨ packet.byte 4 = cmdMsg :=
      or_iff_not_and_not.mpr unknown
    have taken : Taken channel (received ++ [packet]) packet []
        ((packet.bytes.drop 7).take packet.announced) :=
      { inOrder := sublist_append_right _ _
        ours := fun other among => mem_singleton.mp among ▸ ours
        command := known
        sequence := rfl
        data := by rw [flatMap_nil, append_nil] }
    by_cases enough : packet.announced
        ≤ (state.begun ((packet.bytes.drop 7).take packet.announced)
            packet.announced).assembled.length
    · rw [if_pos enough]
      simp only [Assembly.begun, empty, nil_append] at enough ⊢
      exact ⟨packet, [], taken, Nat.le_antisymm taken.length_le enough⟩
    · rw [if_neg enough]
      simp only [Assembly.begun, empty, nil_append] at enough ⊢
      exact ⟨packet, [], taken, rfl, Nat.lt_of_not_le enough, rfl, Nat.zero_le _⟩

/-- A packet that may continue the message in flight. -/
theorem continuation_framed {channel : UInt32} {received : List Packet} {first : Packet}
    {rest : List Packet} (ours : packet.channel = channel.toNat)
    (notKeepalive : packet.byte 4 ≠ cmdKeepalive)
    (taken : Taken channel received first rest state.assembled)
    (missing : state.assembled.length < first.announced)
    (number : state.nextSeq.toNat = rest.length) (bounded : rest.length ≤ cmdKeepalive.toNat)
    (expected : state.expected = some first.announced) :
    (continuation first.announced packet state).Framed channel (received ++ [packet]) := by
  rw [continuation]
  by_cases other : packet.byte 4 ≠ state.nextSeq
  · rw [if_pos other]
    trivial
  · have turn : packet.byte 4 = state.nextSeq := not_not.mp other
    rw [if_neg other, slice_rest packet (by decide : 5 ≤ hidPacketLen)]
    dsimp only
    -- a continuation never carries the number a keepalive is told by, so no number comes again
    have below : rest.length < cmdKeepalive.toNat := by
      refine Nat.lt_of_le_of_ne bounded fun same => notKeepalive (turn.trans ?_)
      exact UInt8.toNat_inj.mp (number.trans same)
    have next := taken.continued missing ours (turn ▸ number)
    by_cases enough : first.announced
        ≤ (state.continued ((packet.bytes.drop 5).take
            (first.announced - state.assembled.length))).assembled.length
    · rw [if_pos enough]
      exact ⟨first, rest ++ [packet], next, Nat.le_antisymm next.length_le enough⟩
    · rw [if_neg enough]
      have succ : (state.nextSeq + 1).toNat = rest.length + 1 := by
        have small : cmdKeepalive.toNat = 187 := rfl
        rw [UInt8.toNat_add, UInt8.toNat_one, number, Nat.mod_eq_of_lt (by omega)]
      rw [Turn.Framed, Assembly.Framed, Assembly.continued, expected]
      refine ⟨first, rest ++ [packet], next, rfl, Nat.lt_of_not_le enough, ?_, ?_⟩
      · rw [length_append, length_singleton]
        exact succ
      · rw [length_append, length_singleton]
        exact below

/-- A packet received keeps the framing. -/
theorem receive_framed {channel : UInt32} {received : List Packet}
    (framed : state.Framed channel received) (human : Bool) (packet : Packet) :
    (receive channel human packet state).Framed channel (received ++ [packet]) := by
  have kept := framed.later [packet]
  rw [receive]
  by_cases foreign : packet.channel ≠ channel.toNat
  · rw [if_pos foreign]
    exact kept
  · have ours : packet.channel = channel.toNat := not_not.mp foreign
    rw [if_neg foreign]
    by_cases keepalive : packet.byte 4 = cmdKeepalive
    · rw [if_pos keepalive]
      dsimp only
      split
      · exact kept
      · split
        · exact kept
        · exact kept
    · rw [if_neg keepalive]
      by_cases error : packet.byte 4 = cmdError
      · rw [if_pos error]
        trivial
      · rw [if_neg error]
        cases expected : state.expected with
        | none =>
          rw [Assembly.Framed, expected] at framed
          exact initial_framed ours framed
        | some want =>
          rw [Assembly.Framed, expected] at framed
          obtain ⟨first, rest, taken, rfl, missing, number, bounded⟩ := framed
          exact continuation_framed ours keepalive taken missing number bounded expected

/-- The packets among what the loop found. -/
def packetsOf (polls : List Poll) : List Packet :=
  polls.filterMap fun
    | .packet packet => some packet
    | .cancelled | .expired | .failed _ | .nothing => none

theorem Replied.later {channel : UInt32} {received : List Packet} {bytes : List UInt8}
    (replied : Replied channel received bytes) (more : List Packet) :
    Replied channel (received ++ more) bytes := by
  obtain ⟨first, rest, taken, whole⟩ := replied
  exact ⟨first, rest, taken.later more, whole⟩

/-- Every run keeps the framing. -/
theorem turns_framed (channel : UInt32) (human : Bool) (polls : List Poll) :
    ∀ (received : List Packet) (state : Assembly), state.Framed channel received →
      (turns channel human state polls).Framed channel (received ++ packetsOf polls) := by
  induction polls with
  | nil =>
    intro received state framed
    exact framed.later []
  | cons poll polls ih =>
    intro received state framed
    cases poll with
    | cancelled | expired | failed _ => trivial
    | nothing => exact ih received state framed
    | packet packet =>
      have step := receive_framed framed human packet
      have split : received ++ packetsOf (.packet packet :: polls)
          = received ++ [packet] ++ packetsOf polls := by
        rw [append_assoc]
        rfl
      rw [turns, split]
      cases turn : receive channel human packet state with
      | loop next =>
        rw [turn] at step
        exact ih _ next step
      | done result =>
        rw [turn] at step
        cases result with
        | error error => trivial
        | ok bytes => exact Replied.later step _
      | panic =>
        rw [turn] at step
        exact step

theorem framed_start (channel : UInt32) (received : List Packet) :
    Assembly.start.Framed channel received := rfl

/-- A message that is sent comes back as its payload through any noise, and whatever a device
answers, the loop stays inside the packets and has assembled no more than was announced, out of
an initial packet and the continuations numbered from zero. -/
theorem framing :
    (∀ (channel : UInt32) (command : UInt8) (payload : List UInt8) (packets : List Packet),
      send channel command payload = .ok packets → command = cmdCbor ∨ command = cmdMsg →
      ∀ (asked : UInt8) (request : List UInt8) (written : List Packet),
        send channel asked request = .ok written →
      ∀ polls, Interleaved channel packets polls → ∀ (later : List Poll) (human : Bool),
        ∃ events, (callCommand channel asked request human (polls ++ later)).2
          = .ended (.ok payload) events) ∧
    ∀ (channel : UInt32) (asked : UInt8) (request : List UInt8) (human : Bool)
        (polls : List Poll),
      (callCommand channel asked request human polls).2.Framed channel (packetsOf polls) := by
  constructor
  · intro channel command payload packets sent known asked request written accepted polls
      interleaved later human
    rw [callCommand, accepted]
    exact turns_message sent known interleaved human later .start rfl rfl
  · intro channel asked request human polls
    rw [callCommand]
    cases accepted : send channel asked request with
    | error error => trivial
    | ok written => exact turns_framed channel human polls [] .start (framed_start channel [])

/-- A reply of two packets, with a keepalive of its channel and a packet of another one. -/
theorem framing_reply :
    ∃ events, (callCommand 7 cmdCbor [4] true
        ([.nothing,
          .packet (.padded (toBe32 7 ++ [cmdCbor] ++ toBe16 60 ++ List.replicate 57 9)),
          .packet (.padded (toBe32 7 ++ [cmdKeepalive, 0, 1, keepaliveUpNeeded])),
          .packet (.padded (toBe32 8 ++ [cmdError])),
          .packet (.padded (toBe32 7 ++ [0] ++ List.replicate 3 9))] ++ [.expired])).2
      = .ended (.ok (List.replicate 60 9)) events :=
  framing.1 7 cmdCbor (List.replicate 60 9)
    [.padded (toBe32 7 ++ [cmdCbor] ++ toBe16 60 ++ List.replicate 57 9),
      .padded (toBe32 7 ++ [0] ++ List.replicate 3 9)]
    (by decide +kernel) (.inl rfl) cmdCbor [4]
    [.padded (toBe32 7 ++ [cmdCbor] ++ toBe16 1 ++ [4])] (by decide +kernel) _
    (.noise (show Noise 7 .nothing from trivial) (.packet
      (.noise
        (show Noise 7 (.packet (.padded (toBe32 7 ++ [cmdKeepalive, 0, 1, keepaliveUpNeeded])))
          from .inr (by decide +kernel))
        (.noise (show Noise 7 (.packet (.padded (toBe32 8 ++ [cmdError])))
            from .inl (by decide +kernel))
          (.packet .nil)))))
    [.expired] true

end Oryxis.Fido2

/-
This file is the map of the relay's senders to their sessions, which drops the oldest entry
when it is full.

The queue beside the map holds its keys, each once, in the order in which they were last
inserted: an insertion under a key that is there moves the key to the back. What goes when
the map is full is the front of the queue.
-/

import Mathlib.Data.List.AList
import Oryxis.Sync.Inbound

namespace Oryxis

open List

open InboundDevice (maxRelaySessions)

structure BoundedSessionMap (Sender : Type) where
  map : AList fun _ : Uuid => Sender
  fifo : List Uuid

namespace BoundedSessionMap

variable {Sender : Type}

def new : BoundedSessionMap Sender := ⟨∅, []⟩

def get (sessions : BoundedSessionMap Sender) (key : Uuid) : Option Sender :=
  sessions.map.lookup key

def remove (sessions : BoundedSessionMap Sender) (key : Uuid) : BoundedSessionMap Sender :=
  if key ∈ sessions.map then ⟨sessions.map.erase key, sessions.fifo.filter (· != key)⟩ else sessions

/-- The front of the queue goes. -/
def evict (sessions : BoundedSessionMap Sender) : BoundedSessionMap Sender :=
  match sessions.fifo with
  | [] => sessions
  | oldest :: fifo => ⟨sessions.map.erase oldest, fifo⟩

/-- What is left in front of an insertion. -/
def makeRoom (sessions : BoundedSessionMap Sender) (key : Uuid) : BoundedSessionMap Sender :=
  if key ∈ sessions.map then { sessions with fifo := sessions.fifo.filter (· != key) }
  else if maxRelaySessions ≤ sessions.map.keys.length then sessions.evict
  else sessions

def insert (sessions : BoundedSessionMap Sender) (key : Uuid) (sender : Sender) :
    BoundedSessionMap Sender :=
  ⟨(sessions.makeRoom key).map.insert key sender, (sessions.makeRoom key).fifo ++ [key]⟩

/-! ### Runs -/

inductive Call (Sender : Type)
  | insert (key : Uuid) (sender : Sender)
  | get (key : Uuid)
  | remove (key : Uuid)

def step (sessions : BoundedSessionMap Sender) : Call Sender → BoundedSessionMap Sender
  | .insert key sender => sessions.insert key sender
  | .get _ => sessions
  | .remove key => sessions.remove key

def run (calls : List (Call Sender)) : BoundedSessionMap Sender := calls.foldl step new

def Call.inserts (key : Uuid) : Call Sender → Bool
  | .insert other _ => other == key
  | _ => false

/-- The number of the call that last inserted a key, counted from 1; 0 where none did. -/
def lastInsertion (calls : List (Call Sender)) (key : Uuid) : Nat :=
  calls.length - calls.reverse.findIdx (Call.inserts key)

theorem lastInsertion_concat (calls : List (Call Sender)) (call : Call Sender) (key : Uuid) :
    lastInsertion (calls ++ [call]) key =
      if call.inserts key then calls.length + 1 else lastInsertion calls key := by
  rw [lastInsertion, reverse_concat, findIdx_cons, length_append,
    length_singleton]
  cases call.inserts key with
  | true => rfl
  | false => exact Nat.add_sub_add_right _ _ _

theorem lastInsertion_of_not (calls : List (Call Sender)) {call : Call Sender}
    (inserts : ∀ key, call.inserts key = false) :
    lastInsertion (calls ++ [call]) = lastInsertion calls := by
  funext key
  rw [lastInsertion_concat, inserts key, if_neg Bool.false_ne_true]

theorem lastInsertion_le (calls : List (Call Sender)) (key : Uuid) :
    lastInsertion calls key ≤ calls.length := Nat.sub_le _ _

/-- The queue holds the keys of the map in the order of their last insertions. -/
structure Kept (calls : List (Call Sender)) (sessions : BoundedSessionMap Sender) : Prop where
  perm : sessions.fifo.Perm sessions.map.keys
  ordered : sessions.fifo.Pairwise fun earlier later =>
    lastInsertion calls earlier < lastInsertion calls later
  bounded : sessions.fifo.length ≤ maxRelaySessions

variable {calls : List (Call Sender)} {sessions : BoundedSessionMap Sender}

theorem Kept.nodup (kept : Kept calls sessions) : sessions.fifo.Nodup :=
  kept.perm.nodup_iff.mpr sessions.map.keys_nodup

/-- What is left in front of an insertion has room for the key at the back. -/
theorem Kept.makeRoom (kept : Kept calls sessions) (key : Uuid) :
    (sessions.makeRoom key).fifo.Perm ((sessions.makeRoom key).map.keys.erase key) ∧
      (sessions.makeRoom key).fifo.Sublist sessions.fifo ∧ key ∉ (sessions.makeRoom key).fifo ∧
      (sessions.makeRoom key).fifo.length < maxRelaySessions := by
  have lengths := kept.perm.length_eq
  rw [BoundedSessionMap.makeRoom]
  split_ifs with known full
  · rw [← kept.nodup.erase_eq_filter]
    have member := kept.perm.mem_iff.mpr known
    refine ⟨kept.perm.erase key, erase_sublist, kept.nodup.not_mem_erase, ?_⟩
    rw [length_erase_of_mem member]
    exact Nat.lt_of_lt_of_le (Nat.sub_one_lt_of_lt (length_pos_of_mem member)) kept.bounded
  · obtain ⟨oldest, fifo, same⟩ : ∃ oldest fifo, sessions.fifo = oldest :: fifo := by
      refine exists_cons_of_ne_nil fun none => ?_
      rw [← lengths, none] at full
      exact absurd full (by decide)
    have left := kept.perm.erase oldest
    have bounded := kept.bounded
    rw [same, length_cons] at bounded
    rw [same, erase_cons_head] at left
    rw [evict, same]
    refine ⟨?_, sublist_cons_self _ _, fun member => ?_, bounded⟩
    · have gone : key ∉ sessions.map.keys.erase oldest :=
        fun member => known (mem_of_mem_erase member)
      rw [AList.keys_erase, erase_of_not_mem gone]
      exact left
    · exact known (kept.perm.mem_iff.mp (same ▸ mem_cons_of_mem _ member))
  · have absent : key ∉ sessions.fifo := fun member => known (kept.perm.mem_iff.mp member)
    refine ⟨?_, Sublist.refl _, absent, by omega⟩
    rw [erase_of_not_mem fun member => known member]
    exact kept.perm

theorem Kept.step (kept : Kept calls sessions) (call : Call Sender) :
    Kept (calls ++ [call]) (sessions.step call) := by
  cases call with
  | get key =>
    refine ⟨kept.perm, ?_, kept.bounded⟩
    rw [lastInsertion_of_not calls fun _ => rfl]
    exact kept.ordered
  | remove key =>
    show Kept _ (sessions.remove key)
    rw [remove]
    split_ifs with known
    · rw [← kept.nodup.erase_eq_filter]
      refine ⟨AList.keys_erase key _ ▸ kept.perm.erase key, ?_, ?_⟩
      · rw [lastInsertion_of_not calls fun _ => rfl]
        exact kept.ordered.sublist erase_sublist
      · exact erase_sublist.length_le.trans kept.bounded
    · refine ⟨kept.perm, ?_, kept.bounded⟩
      rw [lastInsertion_of_not calls fun _ => rfl]
      exact kept.ordered
  | insert key sender =>
    obtain ⟨perm, within, absent, room⟩ := kept.makeRoom key
    have inserts : ∀ other, (Call.insert key sender).inserts other = (key == other) := fun _ => rfl
    have same : ∀ other ∈ (sessions.makeRoom key).fifo,
        lastInsertion (calls ++ [.insert key sender]) other = lastInsertion calls other := by
      intro other member
      rw [lastInsertion_concat, inserts]
      refine if_neg fun isKey => ?_
      rw [← eq_of_beq isKey] at member
      exact absent member
    refine ⟨?_, ?_, ?_⟩
    · show ((sessions.makeRoom key).fifo ++ [key]).Perm
        ((sessions.makeRoom key).map.insert key sender).keys
      rw [AList.keys_insert]
      exact (perm_append_singleton key _).trans (perm.cons key)
    · refine pairwise_append.mpr
        ⟨?_, pairwise_singleton _ _, fun earlier member later isKey => ?_⟩
      · refine (kept.ordered.sublist within).imp_of_mem fun first second less => ?_
        rw [same _ first, same _ second]
        exact less
      · rw [mem_singleton.mp isKey, same _ member, lastInsertion_concat,
          inserts, if_pos (beq_self_eq_true key)]
        exact Nat.lt_succ_of_le (lastInsertion_le calls earlier)
    · show ((sessions.makeRoom key).fifo ++ [key]).length ≤ _
      rw [length_append]
      exact room

theorem kept_run (calls : List (Call Sender)) : Kept calls (run calls) := by
  induction calls using List.reverseRecOn with
  | nil => exact ⟨.nil, .nil, Nat.zero_le _⟩
  | append_singleton calls call inductionHypothesis =>
    rw [run, foldl_append]
    exact inductionHypothesis.step call

/-- After any calls the queue holds the keys of the map, each once and in the order of their last
insertions; the map is within its bound; and what an overflow drops is the key that was last
inserted before all others. -/
theorem boundedSessionMap_spec (calls : List (Call Sender)) :
    (run calls).fifo.Nodup ∧ (run calls).fifo.Perm (run calls).map.keys ∧
      ((run calls).fifo.Pairwise fun earlier later =>
        lastInsertion calls earlier < lastInsertion calls later) ∧
      (run calls).map.keys.length ≤ maxRelaySessions ∧
      ∀ key sender, key ∉ (run calls).map → maxRelaySessions ≤ (run calls).map.keys.length →
        ∃ oldest ∈ (run calls).map,
          (∀ other ∈ (run calls).map, other ≠ oldest →
            lastInsertion calls oldest < lastInsertion calls other) ∧
          ∀ other, other ∈ ((run calls).insert key sender).map ↔
            other = key ∨ other ∈ (run calls).map ∧ other ≠ oldest := by
  have kept := kept_run calls
  refine ⟨kept.nodup, kept.perm, kept.ordered, kept.perm.length_eq ▸ kept.bounded, ?_⟩
  intro key sender unknown full
  obtain ⟨oldest, fifo, same⟩ : ∃ oldest fifo, (run calls).fifo = oldest :: fifo := by
    refine exists_cons_of_ne_nil fun none => ?_
    rw [← kept.perm.length_eq, none] at full
    exact absurd full (by decide)
  have isKey : ∀ other, other ∈ (run calls).map ↔ other = oldest ∨ other ∈ fifo := by
    intro other
    rw [← mem_cons, ← same, kept.perm.mem_iff]
    rfl
  have ordered := kept.ordered
  rw [same] at ordered
  refine ⟨oldest, (isKey oldest).mpr (.inl rfl), fun other member apart => ?_, fun other => ?_⟩
  · exact rel_of_pairwise_cons ordered (((isKey other).mp member).resolve_left apart)
  · rw [insert, makeRoom, if_neg unknown, if_pos full, evict, same, AList.mem_insert,
      AList.mem_erase, and_comm]

/-- A key that is inserted again goes behind one that was first inserted later. -/
theorem fifo_of_inserted_again :
    (run [.insert 1 (), .insert 2 (), .insert 1 ()]).fifo = [2, 1] ∧
      [Call.insert 1 (), .insert 2 (), .insert 1 ()].findIdx (Call.inserts 1) <
        [Call.insert 1 (), .insert 2 (), .insert 1 ()].findIdx (Call.inserts 2) := by
  decide

end BoundedSessionMap

end Oryxis

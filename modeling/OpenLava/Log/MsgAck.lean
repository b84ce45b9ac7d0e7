import Mathlib.Data.List.Basic
import Mathlib.Tactic.Common

/-!
# Acknowledged messages in the event log

A host keeps the messages for its jobs in a ring of buckets, one of which is the head of the queue and holds no message.
-/

namespace OpenLava.MsgAck

open List

structure Bucket where
  (jobId msgId : Int)
  deriving DecidableEq, Repr

/-- The queue `msgq[MSG_STAT_QUEUED]` of a host: its head and the messages in order. -/
structure MsgQueue where
  head : Bucket
  msgs : List Bucket
  head_jobId : head.jobId = -1

def MsgQueue.ring (q : MsgQueue) : List Bucket := q.head :: q.msgs

structure JobMsgAckLog where
  (jobId msgId : Int)

def acked (ack : JobMsgAckLog) (b : Bucket) : Bool := b.jobId == ack.jobId && b.msgId == ack.msgId

/-- The loop from a place of the ring on, for so many turns. -/
def findBucket (q : MsgQueue) (ack : JobMsgAckLog) : Nat → Nat → Option (Option Nat)
  | 0, _ => none
  | turns + 1, i =>
    if q.msgs = [] then some none
    else if (q.ring[i]?).any (acked ack) then some (some i)
    else findBucket q ack turns ((i + 1) % q.ring.length)

/-- The queues of the first hosts of the jobs; no id is `-1`. -/
structure JobQueues where
  queue : Int → Option MsgQueue
  no_job : queue (-1) = none

def replayJobmsgack (jobs : JobQueues) (ack : JobMsgAckLog) (turns : Nat) : Option (Bool × List Bucket) :=
  match jobs.queue ack.jobId with
  | none => some (false, [])
  | some q => (findBucket q ack turns 0).map fun
    | none => (false, q.msgs)
    | some i => (true, (q.ring.eraseIdx i).tail)

variable {q : MsgQueue} {ack : JobMsgAckLog}

theorem findBucket_none (hmsgs : q.msgs ≠ []) (hno : ∀ b ∈ q.ring, acked ack b = false) (turns i : Nat) :
    findBucket q ack turns i = none := by
  induction turns generalizing i with
  | zero => rfl
  | succ turns ih =>
    have ha : ¬ (q.ring[i]?).any (acked ack) = true := by
      cases hb : q.ring[i]? with
      | none => simp
      | some b => simp [hno b (mem_of_getElem? hb)]
    rw [findBucket, if_neg hmsgs, if_neg ha, ih]

/-- From a place before the first bucket that matches, the loop comes to it. -/
theorem findBucket_first (hmsgs : q.msgs ≠ []) {pre post : List Bucket} {b : Bucket} (hr : q.ring = pre ++ b :: post)
    (hb : acked ack b) (hpre : ∀ c ∈ pre, acked ack c = false) (turns i : Nat) (hi : i ≤ pre.length)
    (ht : pre.length - i < turns) : findBucket q ack turns i = some (some pre.length) := by
  induction turns generalizing i with
  | zero => omega
  | succ turns ih =>
    rw [findBucket, if_neg hmsgs]
    rcases Nat.eq_or_lt_of_le hi with rfl | hlt
    · rw [if_pos (by simp [hr, hb])]
    · have ha : ¬ (q.ring[i]?).any (acked ack) = true := by
        rw [hr, List.getElem?_append_left hlt, List.getElem?_eq_getElem hlt]
        simp [hpre _ (getElem_mem hlt)]
      have hn : (i + 1) % q.ring.length = i + 1 := Nat.mod_eq_of_lt (by rw [hr, length_append, length_cons]; omega)
      rw [if_neg ha, hn]
      exact ih (i + 1) hlt (by omega)

theorem findBucket_sound {turns i : Nat} {r : Option Nat} (h : findBucket q ack turns i = some r) :
    ∀ k ∈ r, ∃ b, q.ring[k]? = some b ∧ acked ack b := by
  induction turns generalizing i with
  | zero => cases h
  | succ turns ih =>
    rw [findBucket] at h
    split_ifs at h with hmsgs ha
    · cases h
      simp
    · cases h
      rintro k ⟨⟩
      exact (Option.any_eq_true ..).mp ha
    · exact ih h

theorem head_not_acked {jobs : JobQueues} (hq : jobs.queue ack.jobId = some q) : acked ack q.head = false := by
  have hid : ack.jobId ≠ -1 := by
    intro h
    rw [h, jobs.no_job] at hq
    cases hq
  simp [acked, q.head_jobId, Ne.symm hid]

/-- The replay of an acknowledgement ends iff the queue is empty or has the message. -/
theorem replayJobmsgack_ends_iff (jobs : JobQueues) (ack : JobMsgAckLog) :
    ((∃ turns, (replayJobmsgack jobs ack turns).isSome) ↔
      ∀ q, jobs.queue ack.jobId = some q → q.msgs = [] ∨ ∃ b ∈ q.msgs, acked ack b) ∧
    ∀ turns q found left, jobs.queue ack.jobId = some q → replayJobmsgack jobs ack turns = some (found, left) →
      if found then ∃ pre b post, q.msgs = pre ++ b :: post ∧ acked ack b ∧ left = pre ++ post else left = q.msgs := by
  unfold replayJobmsgack
  cases hq : jobs.queue ack.jobId with
  | none => simp
  | some q =>
    have hh := head_not_acked hq
    dsimp only
    refine ⟨⟨?_, ?_⟩, ?_⟩
    · rintro ⟨turns, he⟩ _ ⟨⟩
      by_contra hno
      push Not at hno
      have hr : ∀ b ∈ q.ring, acked ack b = false :=
        forall_mem_cons.mpr ⟨hh, fun b hb => by simpa using hno.2 b hb⟩
      rw [findBucket_none hno.1 hr] at he
      cases he
    · intro h
      rcases h q rfl with hmsgs | ⟨b, hb, ha⟩
      · exact ⟨1, by simp [findBucket, hmsgs]⟩
      · obtain ⟨c, pre, post, hpre, hc, hr, -⟩ := exists_of_eraseP (p := acked ack) (mem_cons_of_mem q.head hb) ha
        have hmsgs := ne_nil_of_mem hb
        refine ⟨pre.length + 1, ?_⟩
        rw [findBucket_first hmsgs hr hc (by simpa using hpre) _ 0 (Nat.zero_le _) (by omega)]
        rfl
    · rintro turns _ found left ⟨⟩ hres
      obtain ⟨r, hr, hl⟩ := Option.map_eq_some_iff.mp hres
      cases r with
      | none =>
        cases hl
        rfl
      | some k =>
        cases hl
        obtain ⟨b, hb, ha⟩ := findBucket_sound hr k rfl
        cases k with
        | zero =>
          cases hb
          simp [hh] at ha
        | succ k =>
          obtain ⟨hk, rfl⟩ := List.getElem?_eq_some_iff.mp (show q.msgs[k]? = some b from hb)
          refine ⟨q.msgs.take k, _, q.msgs.drop (k + 1), ?_, ha, ?_⟩
          · rw [getElem_cons_drop, take_append_drop]
          · exact eraseIdx_eq_take_drop_succ q.msgs k

def oneMessage : JobQueues where
  queue id := if id = 7 then some ⟨⟨-1, 0⟩, [⟨7, 1⟩], rfl⟩ else none
  no_job := rfl

theorem replayJobmsgack_turns : ¬ ∃ turns, (replayJobmsgack oneMessage ⟨7, 2⟩ turns).isSome := by
  rintro ⟨turns, he⟩
  have hn : findBucket ⟨⟨-1, 0⟩, [⟨7, 1⟩], rfl⟩ ⟨7, 2⟩ turns 0 = none := findBucket_none (by simp) (by decide) turns 0
  simp [replayJobmsgack, oneMessage, hn] at he

end OpenLava.MsgAck

import OpenLava.Lib.Channel

/-!
# The two ends of a connection

What `dowrite` puts on the socket of one channel is what `doread` finds on the other, in any interleaving.
-/

namespace OpenLava.Channel

open List

/-- The bytes of `link.stream` have left the sender. -/
structure Wire where
  sender : Sender
  link : Link

inductive WireOp where
  | send (op : SendOp)
  | recv (op : LinkOp)

def wireStep (stray : Int → UInt8) : WireOp → Wire → Wire
  | .send op, w =>
    let sender := sendStep stray op w.sender
    ⟨sender, { w.link with stream := w.link.stream ++ sender.socket.drop w.sender.socket.length }⟩
  | .recv op, w => { w with link := linkStep op w.link }

def Wire.init : Wire := ⟨.init, .init []⟩

/-- Only honest messages are queued, and `write` fails for now only if nothing is to be sent. -/
def WireOk (op : WireOp) (w : Wire) : Prop :=
  match op with
  | .send op => SendOk op w.sender ∧ ∀ msg, op = .enqueue msg → Honest msg
  | .recv _ => True

def Sender.unsent (s : Sender) : Bytes := s.queued.flatten.drop s.socket.length

def Link.extend (l : Link) (bytes : Bytes) : Link := { l with stream := l.stream ++ bytes }

/-- The receiver follows the queued messages: their bytes are on the way or still to be sent. -/
structure Wired (w : Wire) : Prop where
  sending : ∃ removed, Sending w.sender removed
  honest : ∀ m ∈ w.sender.queued, Honest m
  tracks : Tracks w.sender.queued (w.link.extend w.sender.unsent)

variable {w : Wire} {s : Sender} {l : Link} {ms : List Bytes}

theorem Tracks.extend (h : Tracks ms l) (m : Bytes) : Tracks (ms ++ [m]) (l.extend m) := by
  obtain ⟨rest, hms, hs⟩ := h.split
  refine ⟨h.sized, h.ready, rest ++ [m], by rw [hms, append_assoc]; rfl, ?_⟩
  rw [flatten_append, ← hs, append_assoc]
  simp [Link.extend]

theorem Tracks.recv (hh : ∀ m ∈ ms, Honest m) (bytes : Bytes) (h : Tracks ms (l.extend bytes)) (op : LinkOp) :
    Tracks ms ((linkStep op l).extend bytes) := by
  cases op with
  | read n =>
    refine Tracks.doread (l := l.extend bytes) hh h ?_
    rw [taken_of_length_le, ← append_assoc]
    · exact congrArg (· ++ bytes) (take_append_drop _ _)
    · exact (length_take_le _ _).trans (min_le_right _ _)
  | wait => exact h.step hh .wait
  | dequeue =>
    have hd : (linkStep .dequeue l).extend bytes = linkStep .dequeue (l.extend bytes) := by
      by_cases hr : l.receiver.rmask <;> simp [linkStep, Link.extend, hr]
    rw [hd]
    exact h.step hh .dequeue

theorem dowrite_socket (stray : Int → UInt8) (r : WriteResult) (s : Sender) :
    (dowrite stray r s).queued = s.queued ∧ s.socket <+: (dowrite stray r s).socket := by
  unfold dowrite
  split
  · exact ⟨rfl, prefix_rfl⟩
  · next b rest _ =>
    have ha : ∀ s' cc, (advance s' b rest cc).queued = s'.queued ∧ (advance s' b rest cc).socket = s'.socket := by
      intro s' cc
      unfold advance
      split_ifs <;> exact ⟨rfl, rfl⟩
    cases r <;> simp [ha]

theorem unsent_enqueue (h : s.socket <+: s.queued.flatten) (msg : Bytes) :
    (chanEnqueue msg s).unsent = s.unsent ++ msg := by
  simp [Sender.unsent, chanEnqueue, drop_append_of_le_length h.length_le]

/-- What a write takes from the queue it puts on the way. -/
theorem drop_append_drop {whole old new : Bytes} (hn : new <+: whole) (ho : old <+: new) :
    new.drop old.length ++ whole.drop new.length = whole.drop old.length := by
  obtain ⟨t, rfl⟩ := ho
  obtain ⟨u, rfl⟩ := hn
  simp

theorem Wired.step (stray : Int → UInt8) (op : WireOp) (w : Wire) (h : Wired w) (hok : WireOk op w) :
    Wired (wireStep stray op w) := by
  cases op with
  | recv op => exact ⟨h.sending, h.honest, h.tracks.recv h.honest _ op⟩
  | send op =>
    have hs := Sending.step stray op h.sending hok.1
    cases op with
    | enqueue msg =>
      refine ⟨hs, fun m hm => ?_, ?_⟩
      · rcases mem_append.mp hm with hm | hm
        · exact h.honest m hm
        · exact mem_singleton.mp hm ▸ hok.2 msg rfl
      · obtain ⟨removed, hse⟩ := h.sending
        have ht := h.tracks.extend msg
        simp only [wireStep, sendStep, unsent_enqueue hse.inOrder.sent]
        simpa [Link.extend, chanEnqueue] using ht
    | write r =>
      obtain ⟨hq, hpre⟩ := dowrite_socket stray r w.sender
      obtain ⟨removed, hse⟩ := hs
      have hsent := hse.inOrder.sent
      refine ⟨⟨removed, hse⟩, by simpa [wireStep, sendStep, hq] using h.honest, ?_⟩
      simp only [sendStep, hq] at hsent
      simpa [wireStep, sendStep, Sender.unsent, Link.extend, hq, drop_append_drop hsent hpre] using h.tracks

theorem Wired.init : Wired .init :=
  ⟨⟨[], .init⟩, by simp [Wire.init, Sender.init], tracks_init []⟩

theorem Sending.unsent (h : Sending s removed) (hs : s.send = []) : s.unsent = [] := by
  simp [Sender.unsent, h.socket, h.queued, hs]

/-- In every interleaving the messages handed out are the first of those queued. Once all bytes are sent, as many reads
as there are bytes on the way hand out all of them. -/
theorem delivered_in_order (stray : Int → UInt8) (ops : List WireOp)
    (hops : Run.Meets (wireStep stray) WireOk ops .init) :
    let w := Run.run (wireStep stray) ops .init
    w.link.handed <+: w.sender.queued ∧ (w.sender.send = [] → ∀ sizes, (∀ n ∈ sizes, 0 < n) →
      w.link.stream.length < sizes.length → (Run.run linkStep (rounds sizes) w.link).handed = w.sender.queued) := by
  intro w
  have h : Wired w := Run.run_invariant (Wired.step stray) ops .init .init hops
  obtain ⟨rest, hms, -⟩ := h.tracks.split
  refine ⟨⟨rest, hms.symm⟩, fun hs sizes hpos hlt => ?_⟩
  obtain ⟨removed, hse⟩ := h.sending
  have ht : Tracks w.sender.queued w.link := by simpa [Link.extend, hse.unsent hs] using h.tracks
  cases sizes with
  | nil => simp at hlt
  | cons n sizes =>
    -- the first round leaves no message waiting in the receiver
    refine rounds_done h.honest sizes (fun n hn => hpos n (mem_cons_of_mem _ hn)) _
      ((ht.step h.honest _ _).step h.honest _ _) (not_full_round n w.link) ?_
    rw [stream_round, length_drop]
    simp only [length_cons] at hlt
    omega

/-- Half of a message is read before the rest is written. -/
theorem delivered_in_order_halves : let m : Bytes := [0, 0, 0, 0, 0, 0, 0, 1, 0, 0, 0, 0, 0, 0, 0, 0, 7]
    let ops := [.send (.enqueue m), .send (.write (.wrote 9)), .recv (.read 20), .send (.write (.wrote 9))]
    Run.Meets (wireStep fun _ => 0) WireOk ops .init ∧
      (Run.run (wireStep fun _ => 0) (ops ++ [.recv (.read 7), .recv (.read 1), .recv .dequeue]) .init).link.handed = [m] ∧
      (Run.run linkStep (rounds (replicate 9 3)) (Run.run (wireStep fun _ => 0) ops .init).link).handed = [m] := by
  intro m ops
  have hm : Run.Meets (wireStep fun _ => 0) WireOk ops .init := by
    simp [ops, m, Run.Meets, WireOk, SendOk, Honest, announced, LSF_HEADER_LEN]
  exact ⟨hm, by decide +kernel, (delivered_in_order _ ops hm).2 (by decide +kernel) _ (by simp) (by decide +kernel)⟩

end OpenLava.Channel

import Mathlib.Tactic
import OpenLava.Run

/-!
The channels of `lib.channel.c`. A message is a header of 16 bytes and a body whose length the header announces.
`doread` collects one message at a time from whatever pieces the socket gives; `dowrite` sends the queued messages in
whatever pieces the socket takes. Lengths and positions are the `int`s of `struct Buffer`.
-/

namespace OpenLava.Channel

open List

abbrev Bytes := List UInt8

def LSF_HEADER_LEN : Nat := 16

structure SendBuf where
  data : Bytes
  pos : Int

def SendBuf.len (b : SendBuf) : Int := b.data.length

/-- What `write` answers. `again` is harmless for `BAD_IO_ERR`: it would block, or was interrupted. -/
inductive WriteResult where
  | wrote (n : Nat)
  | again
  | broken
  deriving DecidableEq

/-- The bytes from `pos` on, with whatever the memory holds in front of the buffer. -/
def SendBuf.bytesAt (stray : Int → UInt8) (b : SendBuf) (n : Nat) : Bytes :=
  (range n).map fun i : Nat => if 0 ≤ b.pos + i then b.data.getD (b.pos + i).toNat 0 else stray (b.pos + i)

structure Sender where
  send : List SendBuf
  emask : Bool -- The error mask of the channel.
  queued : List Bytes -- Every message that was queued, and every byte that went out.
  socket : Bytes

def Sender.init : Sender := ⟨[], false, [], []⟩

def chanEnqueue (msg : Bytes) (s : Sender) : Sender :=
  { s with send := s.send ++ [⟨msg, 0⟩], queued := s.queued ++ [msg] }

/-- The buffer after `pos += cc`, dropped when its end is reached. -/
def advance (s : Sender) (b : SendBuf) (rest : List SendBuf) (cc : Int) : Sender :=
  if b.pos + cc = b.len then { s with send := rest } else { s with send := { b with pos := b.pos + cc } :: rest }

def dowrite (stray : Int → UInt8) (r : WriteResult) (s : Sender) : Sender :=
  match s.send with
  | [] => s
  | b :: rest =>
    match r with
    | .wrote n =>
      let n := min n (b.len - b.pos).toNat
      advance { s with socket := s.socket ++ b.bytesAt stray n } b rest n
    | .again => advance s b rest (-1)
    | .broken => { s with emask := true }

inductive SendOp where
  | enqueue (msg : Bytes)
  | write (r : WriteResult)

def sendStep (stray : Int → UInt8) : SendOp → Sender → Sender
  | .enqueue msg => chanEnqueue msg
  | .write r => dowrite stray r

def Sender.removed (s : Sender) : List Bytes := s.queued.take (s.queued.length - s.send.length)

/-- The bytes on the socket are the first of those queued; a message is removed after all its bytes. -/
structure InOrder (s : Sender) : Prop where
  sent : s.socket <+: s.queued.flatten
  removed : s.removed.flatten <+: s.socket

structure Sending (s : Sender) (removed : List Bytes) : Prop where
  queued : s.queued = removed ++ s.send.map SendBuf.data
  position : ∀ b ∈ s.send.head?, 0 ≤ b.pos ∧ b.pos ≤ b.len
  waiting : ∀ b ∈ s.send.tail, b.pos = 0
  socket : s.socket = removed.flatten ++ s.send.head?.elim [] fun b => b.data.take b.pos.toNat

variable {s : Sender} {c : Receiver} {b : RecvBuf} {granted : Int → Bool} {r : ReadResult} {rest ms : List Bytes}
  {stream : Bytes}

theorem Sending.inOrder (h : Sending s removed) : InOrder s := by
  have hremoved : s.removed = removed := by simp [Sender.removed, h.queued]
  constructor
  · rw [h.socket, h.queued, flatten_append, prefix_append_right_inj]
    cases hs : s.send with
    | nil => simp
    | cons b rest => exact (List.take_prefix _ _).trans (by simp)
  · rw [hremoved, h.socket]
    exact prefix_append _ _

theorem Sending.init : Sending .init [] := ⟨rfl, by simp [Sender.init], by simp [Sender.init], rfl⟩

theorem bytesAt_eq (stray : Int → UInt8) {b : SendBuf} {n : Nat} (hpos : 0 ≤ b.pos) (hn : b.pos + n ≤ b.len) :
    b.bytesAt stray n = (b.data.drop b.pos.toNat).take n := by
  obtain ⟨pos, hpos'⟩ := Int.eq_ofNat_of_zero_le hpos
  simp only [SendBuf.len, hpos'] at hn
  refine ext_getElem (by simp [SendBuf.bytesAt, hpos']; omega) fun i hi hi' => ?_
  have hlt : pos + i < b.data.length := by
    simp [SendBuf.bytesAt] at hi
    omega
  have hnon : (0 : Int) ≤ pos + i := by omega
  have hn : ((pos : Int) + i).toNat = pos + i := by omega
  simp [SendBuf.bytesAt, hpos', hnon, hn, List.getElem?_eq_getElem hlt]

/-- A count of bytes moves the position, and takes the message off at its end. -/
theorem Sending.advance {b : SendBuf} {rest : List SendBuf} {n : Nat}
    (h : Sending s removed) (hs : s.send = b :: rest) (hn : b.pos + n ≤ b.len) (stray : Int → UInt8) :
    ∃ removed', Sending (Channel.advance { s with socket := s.socket ++ b.bytesAt stray n } b rest n) removed' := by
  obtain ⟨hpos, -⟩ := h.position b (by simp [hs])
  have hw : ∀ c ∈ rest, c.pos = 0 := by simpa [hs] using h.waiting
  have hsoc : s.socket ++ b.bytesAt stray n = removed.flatten ++ b.data.take (b.pos + n).toNat := by
    rw [h.socket, bytesAt_eq stray hpos hn, hs, append_assoc]
    have hsum : (b.pos + n).toNat = b.pos.toNat + n := by omega
    simp [hsum, take_add]
  unfold Channel.advance
  by_cases he : b.pos + n = b.len
  · rw [if_pos he]
    refine ⟨removed ++ [b.data], by simp [h.queued, hs], ?_, ?_, ?_⟩
    · intro c hc
      have hc0 := hw c (mem_of_mem_head? hc)
      simp only [hc0, SendBuf.len]
      omega
    · exact fun c hc => hw c (mem_of_mem_tail hc)
    · have hf : (rest.head?.elim [] fun c => c.data.take c.pos.toNat) = ([] : Bytes) := by
        cases rest with
        | nil => rfl
        | cons c rest => simp [hw c (by simp)]
      have ha : b.data.take (b.pos + n).toNat = b.data := take_of_length_le (by simp [he, SendBuf.len])
      simp [hsoc, hf, ha]
  · rw [if_neg he]
    refine ⟨removed, by simp [h.queued, hs], ?_, by simpa using hw, by simpa using hsoc⟩
    intro c hc
    obtain rfl : _ = c := by simpa using hc
    exact ⟨by show 0 ≤ b.pos + n; omega, hn⟩

/-- A write to be taken back: `write` fails for now and there is something to send. -/
def SendOk (op : SendOp) (s : Sender) : Prop := op = .write .again → s.send = []

theorem Sending.step (stray : Int → UInt8) (op : SendOp) (h : ∃ removed, Sending s removed)
    (hok : SendOk op s) : ∃ removed, Sending (sendStep stray op s) removed := by
  obtain ⟨removed, h⟩ := h
  cases op with
  | enqueue msg =>
    refine ⟨removed, by simp [sendStep, chanEnqueue, h.queued], ?_, ?_, ?_⟩
    · intro b hb
      cases hs : s.send with
      | nil =>
        obtain rfl : _ = b := by simpa [sendStep, chanEnqueue, hs] using hb
        simp [SendBuf.len]
      | cons c rest => exact h.position b (by simpa [sendStep, chanEnqueue, hs] using hb)
    · intro b hb
      cases hs : s.send with
      | nil => simp [sendStep, chanEnqueue, hs] at hb
      | cons c rest =>
        rcases (by simpa [sendStep, chanEnqueue, hs] using hb : b ∈ rest ∨ b = ⟨msg, 0⟩) with hb | rfl
        · exact h.waiting b (by simpa [hs] using hb)
        · rfl
    · have hsoc := h.socket
      cases hs : s.send with
      | nil => simpa [sendStep, chanEnqueue, hs] using hsoc
      | cons c rest => simpa [sendStep, chanEnqueue, hs] using hsoc
  | write r =>
    cases hs : s.send with
    | nil => exact ⟨removed, by simpa [sendStep, dowrite, hs] using h⟩
    | cons b rest =>
      cases r with
      | wrote n =>
        simp only [sendStep, dowrite, hs]
        obtain ⟨hpos, hle⟩ := h.position b (by simp [hs])
        exact h.advance hs (by omega) stray
      | again => simp [SendOk, hs] at hok
      | broken =>
        have hmask : sendStep stray (.write .broken) s = { s with emask := true } := by simp [sendStep, dowrite, hs]
        rw [hmask]
        exact ⟨removed, h.queued, h.position, h.waiting, h.socket⟩

/-- In every run in which no pending write is told to try again, the bytes go out in order. -/
theorem sends_in_order (stray : Int → UInt8) (ops : List SendOp)
    (hops : Run.Meets (sendStep stray) SendOk ops .init) : InOrder (Run.run (sendStep stray) ops .init) := by
  have hi : ∃ removed, Sending .init removed := ⟨[], Sending.init⟩
  obtain ⟨removed, h⟩ :=
    Run.run_invariant (I := fun s => ∃ removed, Sending s removed) (fun op s => Sending.step stray op) ops .init hi hops
  exact h.inOrder

def pieces : List SendOp :=
  [.enqueue [1, 2, 3], .write (.wrote 2), .enqueue [4], .write (.wrote 5), .write (.wrote 1), .write .again]

theorem sends_in_order_pieces : Run.Meets (sendStep fun _ => 0) SendOk pieces .init ∧
    InOrder (Run.run (sendStep fun _ => 0) pieces .init) := by
  have hmee : Run.Meets (sendStep fun _ => 0) SendOk pieces .init := by
    simp [pieces, Run.Meets, SendOk, sendStep, dowrite, chanEnqueue, advance, SendBuf.len, Sender.init]
  exact ⟨hmee, sends_in_order _ pieces hmee⟩

/-- A write that would block moves the position back, and a byte goes out twice. -/
theorem sends_twice :
    ¬ InOrder (Run.run (sendStep fun _ => 0) [.enqueue [1, 2], .write (.wrote 1), .write .again, .write (.wrote 2)] .init) := by
  intro h
  exact absurd h.sent (by decide)

/-- The bytes received so far are those in front of `pos`. -/
structure RecvBuf where
  data : Bytes
  len : Int

def RecvBuf.pos (b : RecvBuf) : Int := b.data.length

/-- The second word of a header, `length` of `xdr_LSFHeader`, the high byte first. -/
def announced (header : Bytes) : Nat :=
  ((header.drop 4).take 4).foldl (fun n byte => n * 256 + byte.toNat) 0

/-- What `read` answers; `again` would block or was interrupted, `got []` is the end. -/
inductive ReadResult where
  | got (bytes : Bytes)
  | again
  | broken
  deriving DecidableEq

structure Receiver where
  recv : Option RecvBuf
  (rmask emask : Bool) -- The masks of the last `doread`.

/-- `rcvbuf->len - rcvbuf->pos` as the `size_t` that `read` takes. -/
def RecvBuf.room (b : RecvBuf) : Nat := ((b.len - b.pos) % 2 ^ 64).toNat

/-- The buffer that `doread` fills: a new one has no length yet. -/
def Receiver.rcvbuf (c : Receiver) : RecvBuf :=
  match c.recv with
  | some b => if b.len = 0 then ⟨[], LSF_HEADER_LEN⟩ else b
  | none => ⟨[], LSF_HEADER_LEN⟩

/-- The sum is taken in `size_t` and stored in an `int`. -/
def bodyEnd (length : Nat) : Int := ((length + LSF_HEADER_LEN : Nat) : Int).bmod (2 ^ 32)

/-- `doread` behind `read`: `granted` says whether `realloc` gives so many bytes. -/
def received (granted : Int → Bool) (b : RecvBuf) : Receiver :=
  if b.len = LSF_HEADER_LEN ∧ b.pos = b.len ∧ announced b.data ≠ 0 then
    let b := { b with len := bodyEnd (announced b.data) }
    if granted b.len then ⟨some b, b.pos = b.len, false⟩ else ⟨some b, false, true⟩
  else ⟨some b, b.pos = b.len, false⟩

def doread (granted : Int → Bool) (r : ReadResult) (c : Receiver) : Receiver :=
  let b := c.rcvbuf
  if b.pos = b.len then ⟨some b, true, false⟩
  else
    match r with
    | .again => ⟨some b, false, false⟩
    | .broken => ⟨some b, false, true⟩
    | .got bytes =>
      if bytes = [] then ⟨some b, false, true⟩
      else received granted { b with data := b.data ++ bytes.take b.room }

def chanDequeue (c : Receiver) : Option Bytes × Receiver := (c.recv.map RecvBuf.data, ⟨none, false, c.emask⟩)

def Receiver.init : Receiver := ⟨none, false, false⟩

inductive RecvOp where
  | read (r : ReadResult)
  | dequeue

def recvStep (granted : Int → Bool) : RecvOp → Receiver → Receiver
  | .read r => doread granted r
  | .dequeue => fun c => (chanDequeue c).2

/-- The position is inside the buffer, which is as long as the header or what it announces. -/
structure RecvBuf.Sized (b : RecvBuf) : Prop where
  inside : b.pos ≤ b.len
  header : b.data.length < LSF_HEADER_LEN → b.len = LSF_HEADER_LEN
  body : LSF_HEADER_LEN ≤ b.data.length → b.len = LSF_HEADER_LEN + announced b.data

def Sized (c : Receiver) : Prop := ∀ b ∈ c.recv, b.Sized

/-- A read that completes a header completes one whose body ends within an `int`. -/
def HeaderOk (op : RecvOp) (c : Receiver) : Prop :=
  ∀ bytes, op = .read (.got bytes) → c.rcvbuf.data.length < LSF_HEADER_LEN →
    (c.rcvbuf.data ++ bytes.take c.rcvbuf.room).length = LSF_HEADER_LEN →
    announced (c.rcvbuf.data ++ bytes.take c.rcvbuf.room) < 2 ^ 31 - LSF_HEADER_LEN

theorem announced_append {header rest : Bytes} (h : LSF_HEADER_LEN ≤ header.length) :
    announced (header ++ rest) = announced header := by
  simp only [LSF_HEADER_LEN] at h
  unfold announced
  rw [drop_append_of_le_length (by omega), take_append_of_le_length (by simp; omega)]

theorem announced_lt (header : Bytes) : announced header < 2 ^ 32 := by
  have hf : ∀ (l : Bytes) (n : Nat), l.foldl (fun n byte => n * 256 + byte.toNat) n < (n + 1) * 256 ^ l.length := by
    intro l
    induction l with
    | nil => simp
    | cons byte l ih =>
      intro n
      have hb := byte.toNat_lt
      calc (byte :: l).foldl (fun n byte => n * 256 + byte.toNat) n < (n * 256 + byte.toNat + 1) * 256 ^ l.length := ih _
        _ ≤ ((n + 1) * 256) * 256 ^ l.length := Nat.mul_le_mul_right _ (by omega)
        _ = (n + 1) * 256 ^ (byte :: l).length := by
          rw [length_cons, Nat.pow_succ, Nat.mul_assoc, Nat.mul_comm 256]
  have hl : ((header.drop 4).take 4).length ≤ 4 := length_take_le _ _
  calc announced header < (0 + 1) * 256 ^ ((header.drop 4).take 4).length := hf _ 0
    _ ≤ (0 + 1) * 256 ^ 4 := Nat.mul_le_mul_left _ (Nat.pow_le_pow_right (by decide) hl)
    _ = 2 ^ 32 := by decide

theorem bodyEnd_eq_iff {length : Nat} (h : length < 2 ^ 32) :
    bodyEnd length = LSF_HEADER_LEN + length ↔ length < 2 ^ 31 - LSF_HEADER_LEN := by
  unfold bodyEnd LSF_HEADER_LEN
  rw [Int.bmod_def]
  split <;> omega

theorem Sized.rcvbuf (h : Sized c) : c.rcvbuf.Sized := by
  have hf : RecvBuf.Sized ⟨[], LSF_HEADER_LEN⟩ := ⟨by simp [RecvBuf.pos], fun _ => rfl, by simp [LSF_HEADER_LEN]⟩
  unfold Receiver.rcvbuf
  split
  · next b hb =>
    split
    · exact hf
    · exact h b hb
  · exact hf

theorem RecvBuf.Sized.room (h : b.Sized) : b.room = (b.len - b.pos).toNat := by
  have hb : b.len < 2 ^ 33 := by
    by_cases hl : b.data.length < LSF_HEADER_LEN
    · rw [h.header hl]
      decide
    · rw [h.body (by omega)]
      have := announced_lt b.data
      simp only [LSF_HEADER_LEN]
      omega
  have hi := h.inside
  have hpos : 0 ≤ b.pos := by simp [RecvBuf.pos]
  unfold RecvBuf.room
  rw [Int.emod_eq_of_lt (by omega) (by omega)]

theorem RecvBuf.Sized.inside_read (h : b.Sized) (bytes : Bytes) :
    ((b.data ++ bytes.take b.room).length : Int) ≤ b.len := by
  have hr := h.room
  have hi := h.inside
  have ht : (bytes.take b.room).length ≤ b.room := length_take_le _ _
  simp only [RecvBuf.pos] at hr hi
  rw [length_append]
  omega

theorem sized_some : Sized ⟨some b, rmask, emask⟩ ↔ b.Sized := by
  simp [Sized]

/-- Behind a `read` the buffer is sized iff a header that is now complete announces an `int`. -/
theorem received_sized_iff (hi : b.pos ≤ b.len) (hh : b.data.length ≤ LSF_HEADER_LEN → b.len = LSF_HEADER_LEN)
    (hb : LSF_HEADER_LEN < b.data.length → b.len = LSF_HEADER_LEN + announced b.data) : Sized (received granted b) ↔
    (b.data.length = LSF_HEADER_LEN → announced b.data < 2 ^ 31 - LSF_HEADER_LEN) := by
  unfold received
  by_cases hd : b.len = LSF_HEADER_LEN ∧ b.pos = b.len ∧ announced b.data ≠ 0
  · rw [if_pos hd]
    have hl : b.data.length = LSF_HEADER_LEN := by
      have := hd.2.1.trans hd.1
      simp only [RecvBuf.pos] at this
      exact_mod_cast this
    have hs : ∀ r e, Sized ⟨some { b with len := bodyEnd (announced b.data) }, r, e⟩ ↔
        announced b.data < 2 ^ 31 - LSF_HEADER_LEN := by
      intro r e
      rw [sized_some]
      constructor
      · intro h
        have hb := h.body hl.ge
        dsimp only at hb
        rwa [bodyEnd_eq_iff (announced_lt b.data)] at hb
      · intro h
        have he := (bodyEnd_eq_iff (announced_lt b.data)).mpr h
        rw [he]
        refine ⟨?_, fun hlt => absurd hl hlt.ne, fun _ => rfl⟩
        simp only [RecvBuf.pos, hl]
        omega
    simp only [hl, forall_const]
    split
    · exact hs _ _
    · exact hs _ _
  · rw [if_neg hd, sized_some]
    have hz : b.data.length = LSF_HEADER_LEN → announced b.data = 0 := by
      intro hl
      by_contra hne
      have := hh hl.le
      exact hd ⟨this, by simp [RecvBuf.pos, this, hl], hne⟩
    constructor
    · intro _ hl
      rw [hz hl]
      decide
    · intro _
      refine ⟨hi, fun hlt => hh hlt.le, fun hle => ?_⟩
      rcases hle.eq_or_lt with heq | hlt
      · rw [hh heq.ge, hz heq.symm]
        simp
      · exact hb hlt

theorem doread_sized_iff (h : Sized c) : Sized (doread granted r c) ↔ HeaderOk (.read r) c := by
  have hb := h.rcvbuf
  have hkept : ∀ rmask emask, Sized ⟨some c.rcvbuf, rmask, emask⟩ := fun _ _ => sized_some.mpr hb
  unfold doread
  by_cases hf : c.rcvbuf.pos = c.rcvbuf.len
  · simp only [hf, if_true]
    refine iff_of_true (hkept _ _) ?_
    intro bytes _ hlt
    have hl := hb.header hlt
    simp only [RecvBuf.pos] at hf
    omega
  · simp only [hf, if_false]
    cases r with
    | again => exact iff_of_true (hkept _ _) (by simp [HeaderOk])
    | broken => exact iff_of_true (hkept _ _) (by simp [HeaderOk])
    | got bytes =>
      by_cases hn : bytes = []
      · simp only [hn, if_true]
        refine iff_of_true (hkept _ _) ?_
        intro bytes' heq hlt hl
        cases heq
        rw [take_nil, append_nil] at hl
        exact absurd hl hlt.ne
      · simp only [hn, if_false]
        have hi := hb.inside_read bytes
        -- Some byte is read, so a header that is complete now was not, or is followed by a byte of its body.
        have hmore : c.rcvbuf.data.length < (c.rcvbuf.data ++ bytes.take c.rcvbuf.room).length := by
          have hr := hb.room
          have hle := hb.inside
          have hpos := length_pos_iff.mpr hn
          rw [length_append, length_take]
          omega
        have hold : LSF_HEADER_LEN ≤ c.rcvbuf.data.length →
            c.rcvbuf.len = LSF_HEADER_LEN + announced (c.rcvbuf.data ++ bytes.take c.rcvbuf.room) := by
          intro hle
          rw [announced_append hle, hb.body hle]
        refine (received_sized_iff (b := { c.rcvbuf with data := c.rcvbuf.data ++ bytes.take c.rcvbuf.room })
          hi ?_ ?_).trans ?_
        rotate_left 2
        · constructor
          · intro h bytes' heq _ hl
            cases heq
            exact h hl
          · intro h hl
            exact h bytes rfl (hmore.trans_eq hl) hl
        · intro hle
          exact hb.header (by simp only at hle; omega)
        · intro hlt
          rcases lt_or_ge c.rcvbuf.data.length LSF_HEADER_LEN with hh | hh
          · have := hb.header hh
            simp only at hlt
            omega
          · exact hold hh

theorem recvStep_sized_iff (op : RecvOp) (c : Receiver) (h : Sized c) :
    Sized (recvStep granted op c) ↔ HeaderOk op c := by
  cases op with
  | read r => exact doread_sized_iff h
  | dequeue => exact iff_of_true (by simp [recvStep, chanDequeue, Sized]) (by simp [HeaderOk])

/-- The buffer keeps its size in every run iff no completed header announces more than an `int`. -/
theorem recv_sized_iff (granted : Int → Bool) (ops : List RecvOp) :
    Run.Meets (recvStep granted) (fun op c => Sized (recvStep granted op c)) ops .init ↔
      Run.Meets (recvStep granted) HeaderOk ops .init :=
  Run.meets_property_iff (I := Sized) (fun op c h hok => (recvStep_sized_iff op c h).mpr hok) recvStep_sized_iff ops .init
    (by simp [Sized, Receiver.init])

/-- A header that announces `0xffffffff` bytes leaves a buffer of 15 bytes of which 16 are filled. -/
theorem recv_overfilled : let header : Bytes := [0, 0, 0, 0, 0xff, 0xff, 0xff, 0xff, 0, 0, 0, 0, 0, 0, 0, 0]
    ¬ Run.Meets (recvStep fun _ => true) (fun op c => Sized (recvStep (fun _ => true) op c)) [.read (.got header)]
      .init := by
  rintro _ ⟨h, -⟩
  have hi := (h ⟨_, _⟩ rfl).inside
  revert hi
  decide

/-- A channel with the bytes still to be read and the messages its owner was given. -/
structure Link where
  receiver : Receiver
  stream : Bytes
  handed : List Bytes

/-- `read n` finds `n` bytes at most; `wait` would block or is interrupted. -/
inductive LinkOp where
  | read (n : Nat)
  | wait
  | dequeue

def linkStep : LinkOp → Link → Link
  | .read n, l =>
    let count := min n l.receiver.rcvbuf.room
    let got := l.stream.take count
    ⟨doread (fun _ => true) (if got = [] then .again else .got got) l.receiver, l.stream.drop count, l.handed⟩
  | .wait, l => { l with receiver := doread (fun _ => true) .again l.receiver }
  | .dequeue, l =>
    if l.receiver.rmask then
      ⟨(chanDequeue l.receiver).2, l.stream, l.handed ++ (chanDequeue l.receiver).1.toList⟩
    else l

/-- A header and as many bytes as it announces, fewer than `2 ^ 31 - 16`. -/
def Honest (m : Bytes) : Prop :=
  LSF_HEADER_LEN ≤ m.length ∧ announced m = m.length - LSF_HEADER_LEN ∧ announced m < 2 ^ 31 - LSF_HEADER_LEN

def Receiver.pending (c : Receiver) : Bytes := (c.recv.map RecvBuf.data).getD []

def Receiver.taken (c : Receiver) : ReadResult → Bytes
  | .got bytes => bytes.take c.rcvbuf.room
  | .again => []
  | .broken => []

theorem Sized.rcvbuf_data (h : Sized c) : c.rcvbuf.data = c.pending := by
  unfold Receiver.rcvbuf Receiver.pending
  cases hr : c.recv with
  | none => rfl
  | some b =>
    have hb := h b hr
    have hl : b.len ≠ 0 := by
      have hi := hb.inside
      have hh := hb.header
      simp only [RecvBuf.pos, LSF_HEADER_LEN] at hi hh
      omega
    simp [hl]

theorem received_data (granted : Int → Bool) (b : RecvBuf) : (received granted b).pending = b.data := by
  unfold received Receiver.pending
  dsimp only
  split_ifs <;> rfl

theorem doread_pending (granted : Int → Bool) (r : ReadResult) (h : Sized c) :
    (doread granted r c).pending = c.pending ++ c.taken r := by
  rw [← h.rcvbuf_data]
  unfold doread
  by_cases hf : c.rcvbuf.pos = c.rcvbuf.len
  · have hr : c.rcvbuf.room = 0 := by simp [RecvBuf.room, hf]
    cases r <;> simp [hf, Receiver.taken, hr, Receiver.pending]
  · cases r with
    | again => simp [hf, Receiver.taken, Receiver.pending]
    | broken => simp [hf, Receiver.taken, Receiver.pending]
    | got bytes =>
      by_cases hn : bytes = []
      · simp [hf, hn, Receiver.taken, Receiver.pending]
      · simp [hf, hn, Receiver.taken, received_data]

def Receiver.Full (c : Receiver) : Prop := ∃ b, c.recv = some b ∧ b.pos = b.len

theorem received_ready_iff (b : RecvBuf) : (received (fun _ => true) b).rmask ↔ (received (fun _ => true) b).Full := by
  unfold received
  by_cases hd : b.len = LSF_HEADER_LEN ∧ b.pos = b.len ∧ announced b.data ≠ 0
  · simp [hd, Receiver.Full]
  · simp [hd, Receiver.Full]

theorem doread_ready_iff (r : ReadResult) (c : Receiver) :
    (doread (fun _ => true) r c).rmask ↔ (doread (fun _ => true) r c).Full := by
  unfold doread
  by_cases hf : c.rcvbuf.pos = c.rcvbuf.len
  · simp [hf, Receiver.Full]
  · cases r with
    | again => simp [hf, Receiver.Full]
    | broken => simp [hf, Receiver.Full]
    | got bytes =>
      by_cases hn : bytes = []
      · simp [hf, hn, Receiver.Full]
      · simp only [hf, hn, if_false]
        exact received_ready_iff _

structure Tracks (ms : List Bytes) (l : Link) : Prop where
  sized : Sized l.receiver
  ready : l.receiver.rmask → l.receiver.Full
  split : ∃ rest, ms = l.handed ++ rest ∧ l.receiver.pending ++ l.stream = rest.flatten

theorem exists_head {data : Bytes} (hh : ∀ m ∈ rest, Honest m) (hs : data ++ stream = rest.flatten)
    (hlen : LSF_HEADER_LEN ≤ data.length) : ∃ m rest', rest = m :: rest' ∧ announced data = announced m := by
  cases rest with
  | nil =>
    have hn := (append_eq_nil_iff.mp hs).1
    rw [hn] at hlen
    exact absurd hlen (by decide)
  | cons m rest' =>
    refine ⟨m, rest', rfl, ?_⟩
    have hm := (hh m mem_cons_self).1
    have hh : ∀ l : Bytes, LSF_HEADER_LEN ≤ l.length → announced l = announced (l.take LSF_HEADER_LEN) := by
      intro l hl
      conv_lhs => rw [← take_append_drop LSF_HEADER_LEN l]
      exact announced_append (by rw [length_take]; omega)
    have ht : data.take LSF_HEADER_LEN = m.take LSF_HEADER_LEN := by
      have := congrArg (List.take LSF_HEADER_LEN) hs
      rwa [flatten_cons, take_append_of_le_length hlen, take_append_of_le_length hm] at this
    rw [hh data hlen, hh m hm, ht]

theorem full_eq_head (hh : ∀ m ∈ rest, Honest m) (hs : b.Sized) (hf : b.pos = b.len)
    (hspl : b.data ++ stream = rest.flatten) : ∃ rest', rest = b.data :: rest' ∧ stream = rest'.flatten := by
  simp only [RecvBuf.pos] at hf
  have hl : LSF_HEADER_LEN ≤ b.data.length := by
    by_contra hlt
    have := hs.header (by omega)
    omega
  obtain ⟨m, rest', rfl, ha⟩ := exists_head hh hspl hl
  have hm := hh m mem_cons_self
  have hb := hs.body hl
  have hl : b.data.length = m.length := by
    have h1 := hm.1
    have h2 := hm.2.1
    omega
  obtain ⟨rfl, rfl⟩ := append_inj (hspl.trans flatten_cons) hl
  exact ⟨rest', rfl, rfl⟩

theorem headerOk_of_split (hh : ∀ m ∈ rest, Honest m) (hs : Sized c) (hspl : c.pending ++ c.taken r ++ stream = rest.flatten) :
    HeaderOk (.read r) c := by
  rintro bytes ⟨⟩ - hl
  rw [hs.rcvbuf_data] at hl ⊢
  obtain ⟨m, rest', rfl, ha⟩ := exists_head hh hspl hl.ge
  have := (hh m mem_cons_self).2.2
  simp only [Receiver.taken] at ha
  rwa [ha]

theorem Tracks.doread (hh : ∀ m ∈ ms, Honest m) (h : Tracks ms l) (hstr : l.receiver.taken r ++ stream = l.stream) :
    Tracks ms ⟨Channel.doread (fun _ => true) r l.receiver, stream, l.handed⟩ := by
  obtain ⟨rest, hms, hs⟩ := h.split
  rw [← hstr, ← append_assoc] at hs
  have hr : ∀ m ∈ rest, Honest m := fun m hm => hh m (by simp [hms, hm])
  refine ⟨(doread_sized_iff h.sized).mpr (headerOk_of_split hr h.sized hs),
    (doread_ready_iff _ _).mp, rest, hms, ?_⟩
  rw [← hs, doread_pending _ _ h.sized]

theorem taken_of_length_le (h : got.length ≤ c.rcvbuf.room) : c.taken (if got = [] then .again else .got got) = got := by
  split
  · next hn => rw [hn]; rfl
  · exact take_of_length_le h

theorem Tracks.step (hh : ∀ m ∈ ms, Honest m) (op : LinkOp) (l : Link) (h : Tracks ms l) :
    Tracks ms (linkStep op l) := by
  cases op with
  | read n =>
    refine Tracks.doread hh h ?_
    rw [taken_of_length_le, take_append_drop]
    exact (length_take_le _ _).trans (min_le_right _ _)
  | wait => exact Tracks.doread hh h rfl
  | dequeue =>
    simp only [linkStep]
    by_cases hr : l.receiver.rmask
    · rw [if_pos hr]
      obtain ⟨b, hb, hf⟩ := h.ready hr
      obtain ⟨rest, hms, hs⟩ := h.split
      have hrest : ∀ m ∈ rest, Honest m := fun m hm => hh m (by simp [hms, hm])
      simp only [Receiver.pending, hb, Option.map_some, Option.getD_some] at hs
      obtain ⟨rest', rfl, hstr⟩ := full_eq_head hrest (h.sized b hb) hf hs
      refine ⟨by simp [chanDequeue, Sized], by simp [chanDequeue], rest', ?_, ?_⟩
      · simp [hms, chanDequeue, hb]
      · simpa [chanDequeue, Receiver.pending] using hstr
    · rw [if_neg hr]
      exact h

def Link.init (ms : List Bytes) : Link := ⟨.init, ms.flatten, []⟩

theorem tracks_init (ms : List Bytes) : Tracks ms (.init ms) :=
  ⟨by simp [Link.init, Receiver.init, Sized], by simp [Link.init, Receiver.init],
    ms, by simp [Link.init], by simp [Link.init, Receiver.init, Receiver.pending]⟩

theorem Tracks.done (hh : ∀ m ∈ ms, Honest m) (h : Tracks ms l)
    (hstr : l.stream = []) (hf : ¬ l.receiver.Full) : l.handed = ms := by
  obtain ⟨rest, hms, hs⟩ := h.split
  cases rest with
  | nil => rw [hms, append_nil]
  | cons m rest' =>
    exfalso
    have hrest : ∀ x ∈ m :: rest', Honest x := fun x hx => hh x (by rw [hms]; exact mem_append_right _ hx)
    have hm := hrest m mem_cons_self
    have hl : l.receiver.pending.length = m.length + rest'.flatten.length := by
      have := congrArg List.length hs
      simpa [hstr] using this
    cases hr : l.receiver.recv with
    | none =>
      have h1 := hm.1
      simp only [Receiver.pending, hr, Option.map_none, Option.getD_none, length_nil, LSF_HEADER_LEN] at hl h1
      omega
    | some b =>
      have hb := h.sized b hr
      simp only [Receiver.pending, hr, Option.map_some, Option.getD_some] at hl hs
      have hh : LSF_HEADER_LEN ≤ b.data.length := by have := hm.1; omega
      obtain ⟨_, _, heq, ha⟩ := exists_head hrest hs hh
      cases heq
      have hbody := hb.body hh
      have hi := hb.inside
      refine hf ⟨b, hr, ?_⟩
      have h2 := hm.2.1
      simp only [RecvBuf.pos] at hi ⊢
      omega

/-- Reads of these sizes, with what is ready dequeued after each. -/
def rounds (sizes : List Nat) : List LinkOp := sizes.flatMap fun n => [.read n, .dequeue]

theorem not_full_round (n : Nat) (l : Link) : ¬ (linkStep .dequeue (linkStep (.read n) l)).receiver.Full := by
  generalize hl : linkStep (.read n) l = l'
  have hi : l'.receiver.rmask ↔ l'.receiver.Full := by
    rw [← hl]
    exact doread_ready_iff _ _
  simp only [linkStep]
  split
  · simp [chanDequeue, Receiver.Full]
  · next hr => exact fun hf => hr (hi.mpr hf)

theorem stream_round (n : Nat) (l : Link) :
    (linkStep .dequeue (linkStep (.read n) l)).stream = l.stream.drop (min n l.receiver.rcvbuf.room) := by
  generalize hl : linkStep (.read n) l = l'
  have hs : l'.stream = l.stream.drop (min n l.receiver.rcvbuf.room) := by rw [← hl]; rfl
  simp only [linkStep]
  split <;> exact hs

theorem Sized.room_pos (h : Sized c) (hf : ¬ c.Full) : 0 < c.rcvbuf.room := by
  have hb := h.rcvbuf
  have hne : c.rcvbuf.pos ≠ c.rcvbuf.len := by
    intro heq
    unfold Receiver.rcvbuf at heq
    split at heq
    · next b hr =>
      split at heq
      · simp [RecvBuf.pos, LSF_HEADER_LEN] at heq
      · exact hf ⟨b, hr, heq⟩
    · simp [RecvBuf.pos, LSF_HEADER_LEN] at heq
  have hi := hb.inside
  rw [hb.room]
  omega

theorem rounds_done (hh : ∀ m ∈ ms, Honest m) (sizes : List Nat) (hs : ∀ n ∈ sizes, 0 < n)
    (l : Link) (h : Tracks ms l) (hf : ¬ l.receiver.Full) (hl : l.stream.length ≤ sizes.length) :
    (Run.run linkStep (rounds sizes) l).handed = ms := by
  induction sizes generalizing l with
  | nil => exact h.done hh (length_eq_zero_iff.mp (Nat.le_zero.mp hl)) hf
  | cons n sizes ih =>
    have hn := hs n mem_cons_self
    have hr := h.sized.room_pos hf
    refine ih (fun n hn => hs n (mem_cons_of_mem _ hn)) _ ((h.step hh _ _).step hh _ _)
      (not_full_round n l) ?_
    rw [stream_round, length_drop]
    simp only [length_cons] at hl
    omega

/-- However the messages are cut into reads, all are handed out, in order. -/
theorem recv_exactly (ms : List Bytes) (hhonest : ∀ m ∈ ms, Honest m) (ops : List LinkOp) :
    let l := Run.run linkStep ops (.init ms)
    (∃ rest, ms = l.handed ++ rest ∧ l.receiver.pending ++ l.stream = rest.flatten) ∧
      ∀ sizes, (∀ n ∈ sizes, 0 < n) → l.stream.length < sizes.length →
        (Run.run linkStep (rounds sizes) l).handed = ms := by
  intro l
  have ht : Tracks ms l :=
    Run.run_preserves (I := Tracks ms) (fun op l h => h.step hhonest op l) ops _ (tracks_init ms)
  refine ⟨ht.split, ?_⟩
  intro sizes hs hl
  cases sizes with
  | nil => simp at hl
  | cons n sizes =>
    refine rounds_done hhonest sizes (fun n hn => hs n (mem_cons_of_mem _ hn)) _
      ((ht.step hhonest _ _).step hhonest _ _) (not_full_round n l) ?_
    rw [stream_round, length_drop]
    simp only [length_cons] at hl
    omega

/-- A message with a body of two bytes and one without, in pieces. -/
theorem recv_exactly_pieces :
    let ms : List Bytes := [[0, 0, 0, 0, 0, 0, 0, 2, 0, 0, 0, 0, 0, 0, 0, 0, 7, 8], [0, 0, 0, 0, 0, 0, 0, 0, 1, 0, 0, 0, 0, 0, 0, 0]]
    (∀ m ∈ ms, Honest m) ∧
      (Run.run linkStep (rounds (replicate 40 1)) (Run.run linkStep [.read 5, .wait, .read 30] (.init ms))).handed =
        ms := by
  have hh : ∀ m ∈ ([[0, 0, 0, 0, 0, 0, 0, 2, 0, 0, 0, 0, 0, 0, 0, 0, 7, 8],
      [0, 0, 0, 0, 0, 0, 0, 0, 1, 0, 0, 0, 0, 0, 0, 0]] : List Bytes), Honest m := by
    simp [Honest, announced, LSF_HEADER_LEN]
  refine ⟨hh, (recv_exactly _ hh [.read 5, .wait, .read 30]).2 _ ?_ ?_⟩
  · intro n hn
    rw [eq_of_mem_replicate hn]
    decide
  · decide +kernel

end OpenLava.Channel

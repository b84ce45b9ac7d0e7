import OpenLava.Run
import OpenLava.Lib.Header

/-!
# Standard output and standard error of the tasks

The RES collects what the tasks write in one buffer for each channel, moves the buffers one at a time into the one write
buffer and writes the frame to the NIOS. No task has a pty.
-/

namespace OpenLava.Res

open List Header

def LINE_BUFSIZ : Nat := 4096

def OPENLAVA_VERSION : UInt16 := 20

inductive ResNiosCmd where
  | RES2NIOS_CONNECT
  | RES2NIOS_STATUS
  | RES2NIOS_STDOUT
  | RES2NIOS_EOF
  | RES2NIOS_REQUEUE
  | RES2NIOS_NEWTASK
  | RES2NIOS_STDERR
  deriving DecidableEq

def ResNiosCmd.code : ResNiosCmd → UInt16
  | RES2NIOS_CONNECT => 0
  | RES2NIOS_STATUS => 1
  | RES2NIOS_STDOUT => 2
  | RES2NIOS_EOF => 3
  | RES2NIOS_REQUEUE => 4
  | RES2NIOS_NEWTASK => 5
  | RES2NIOS_STDERR => 6

/-- An `outputChannel`, with what the task wrote and what is still in the pipe. -/
structure OutputChannel where
  buffer : Header.Bytes
  (endFlag retry : Bool)
  (written pipe : Header.Bytes)
  deriving DecidableEq

structure Task where
  rpid : Nat
  (std_out std_err : OutputChannel)
  deriving DecidableEq

inductive Which where
  | out
  | err
  deriving DecidableEq

def Which.opCode : Which → ResNiosCmd
  | out => .RES2NIOS_STDOUT
  | err => .RES2NIOS_STDERR

def Task.channel (t : Task) : Which → OutputChannel
  | .out => t.std_out
  | .err => t.std_err

def Task.setChannel (t : Task) (c : OutputChannel) : Which → Task
  | .out => { t with std_out := c }
  | .err => { t with std_err := c }

/-- What `read` answers; `again` is an error `BAD_IO_ERR` takes for harmless. -/
inductive PipeRead where
  | got (n : Nat)
  | eof
  | broken
  | again
  deriving DecidableEq

def OutputChannel.fill (c : OutputChannel) (n : Nat) : OutputChannel :=
  let got := c.pipe.take (min n (LINE_BUFSIZ - c.buffer.length))
  { c with buffer := c.buffer ++ got, pipe := c.pipe.drop got.length }

/-- `final` is what the second `read` answers, where the first would block and the task is gone. -/
def child_channel_clear (r : PipeRead) (final : Option PipeRead) (c : OutputChannel) : OutputChannel :=
  if LINE_BUFSIZ ≤ c.buffer.length then c
  else
    match r with
    | .got n => c.fill n
    | .eof => { c with endFlag := true }
    | .broken => { c with endFlag := true }
    | .again =>
      match final with
      | none => c
      | some (.got n) => { c.fill n with retry := true }
      | some _ => { c with endFlag := true }

/-- The writing side of `conn2NIOS`: `unsent` are the `wcount` bytes from `bp` on. -/
structure Nios where
  (wbuf unsent : Header.Bytes)
  wtag : Nat
  opCode : ResNiosCmd
  out : Header.Bytes
  sent : List Frame
  deriving DecidableEq

/-- The position of the last newline among the first `i` bytes. -/
def lastNewline (buf : Header.Bytes) : Nat → Option Nat
  | 0 => none
  | i + 1 => if buf[i]? = some 10 then some i else lastNewline buf i

/-- How many bytes `dochild_buffer` moves; 0 where it waits for the end of a line. -/
def OutputChannel.moves (linebuf : Bool) (c : OutputChannel) : Nat :=
  if linebuf then
    match lastNewline c.buffer c.buffer.length with
    | some i => i + 1
    | none => if c.buffer.length < LINE_BUFSIZ ∧ c.endFlag = false then 0 else c.buffer.length
  else c.buffer.length

/-- The cases `DOWRITE` and `DOSTDERR`; the end is declared once. -/
def dochild_output (linebuf : Bool) (w : Which) (chld : Task) (b : Nios) : Task × Nios :=
  let channel := chld.channel w
  if b.wbuf ≠ [] then (chld, b)
  else if channel.buffer = [] then (chld.setChannel { channel with endFlag := false } w, b)
  else
    let bcount := channel.moves linebuf
    if bcount = 0 then (chld, b)
    else
      (chld.setChannel { channel with buffer := channel.buffer.drop bcount } w,
        { b with wbuf := channel.buffer.take bcount, wtag := chld.rpid, opCode := w.opCode })

def niosHeader (cmd : ResNiosCmd) (tag : Nat) (payload : Header.Bytes) : LSFHeader where
  refCode := 0
  opCode := cmd.code
  length := UInt32.ofNat payload.length
  version := OPENLAVA_VERSION
  reserved := UInt16.ofNat tag
  reserved0 := 0

def Nios.frame (b : Nios) : Frame := ⟨niosHeader b.opCode b.wtag b.wbuf, b.wbuf⟩

/-- The header is put in front of the payload once, before the first `write`. -/
def Nios.begun (b : Nios) : Nios := if b.unsent = [] then { b with unsent := b.frame.bytes } else b

/-- `DOWRITE` of `donios_sock`, where `write` takes `n` bytes at most. -/
def donios_write (n : Nat) (b : Nios) : Nios :=
  if b.unsent = [] ∧ b.wbuf = [] then b
  else
    let b := b.begun
    let b' := { b with unsent := b.unsent.drop n, out := b.out ++ b.unsent.take n }
    if b'.unsent = [] then { b' with wbuf := [], sent := b.sent ++ [b.frame] } else b'

structure Notice where
  opCode : ResNiosCmd
  rpid : Nat
  body : Header.Bytes
  notOutput : ∀ w : Which, opCode ≠ w.opCode
  short : body.length < 2 ^ 32

def Notice.frame (notice : Notice) : Frame := ⟨niosHeader notice.opCode notice.rpid notice.body, notice.body⟩

def deliver_notification (notice : Notice) (b : Nios) : Nios :=
  if b.unsent = [] then { b with out := b.out ++ notice.frame.bytes, sent := b.sent ++ [notice.frame] } else b

structure Relay where
  children : List Task
  nios : Nios
  previousIndex : Int
  deriving DecidableEq

/-- What follows for the task at a place of `children`. -/
def Relay.onTask (s : Relay) (i : Nat) (f : Task → Nios → Task × Nios) : Relay :=
  match s.children[i]? with
  | none => s
  | some chld =>
    let r := f chld s.nios
    { s with children := s.children.set i r.1, nios := r.2 }

/-- The turn of a task in `houseKeeping`. -/
def turn (linebuf : Bool) (chld : Task) (b : Nios) : Task × Nios :=
  if chld.std_out.buffer ≠ [] then dochild_output linebuf .out chld b
  else if chld.std_out.endFlag then dochild_output linebuf .out chld b
  else if chld.std_err.buffer ≠ [] then dochild_output linebuf .err chld b
  else if chld.std_err.endFlag then dochild_output linebuf .err chld b
  else (chld, b)

/-- The loop of `houseKeeping` over `children`, up to the first task with something to send. -/
def turns (linebuf : Bool) : List Nat → Relay → Relay
  | [], s => s
  | i :: places, s =>
    let s' := s.onTask i (turn linebuf)
    if s'.nios.wbuf ≠ [] then { s' with previousIndex := i } else turns linebuf places s'

/-- The output in `houseKeeping`: the tasks take turns, from behind the last that had one. -/
def houseKeeping_output (linebuf : Bool) (s : Relay) : Relay :=
  if s.nios.wbuf = [] ∧ s.nios.unsent = [] then
    let child_cnt := s.children.length
    let previousIndex := if child_cnt ≤ s.previousIndex then -1 else s.previousIndex
    turns linebuf ((range child_cnt).map fun j => ((j + previousIndex + 1) % child_cnt).toNat)
      { s with previousIndex := previousIndex }
  else s

inductive RelayOp where
  | print (i : Nat) (w : Which) (data : Header.Bytes) -- The task at a place writes to one of its channels.
  | clear (i : Nat) (w : Which) (r : PipeRead) (final : Option PipeRead)
  | move (i : Nat) (w : Which) (linebuf : Bool)
  | keep (linebuf : Bool)
  | write (n : Nat)
  | notify (notice : Notice)

def relayStep : RelayOp → Relay → Relay
  | .print i w data, s =>
    s.onTask i fun chld b =>
      let c := chld.channel w
      (chld.setChannel { c with written := c.written ++ data, pipe := c.pipe ++ data } w, b)
  | .clear i w r final, s =>
    s.onTask i fun chld b => (chld.setChannel (child_channel_clear r final (chld.channel w)) w, b)
  | .move i w linebuf, s => s.onTask i (dochild_output linebuf w)
  | .keep linebuf, s => houseKeeping_output linebuf s
  | .write n, s => { s with nios := donios_write n s.nios }
  | .notify notice, s => { s with nios := deliver_notification notice s.nios }

def payloads (fs : List Frame) (cmd : ResNiosCmd) (rpid : Nat) : Header.Bytes :=
  (fs.filter fun f => f.hdr.opCode = cmd.code ∧ f.hdr.reserved.toNat = rpid).flatMap Frame.payload

/-- What of the write buffer is the output of a task. -/
def inTransit (b : Nios) (w : Which) (rpid : Nat) : Header.Bytes :=
  if b.opCode = w.opCode ∧ b.wtag = rpid then b.wbuf else []

/-- What was sent, is on its way, is buffered and is in the pipe is what the task wrote. -/
structure ChannelOk (b : Nios) (rpid : Nat) (w : Which) (c : OutputChannel) : Prop where
  short : c.buffer.length ≤ LINE_BUFSIZ
  flow : payloads b.sent w.opCode rpid ++ inTransit b w rpid ++ c.buffer ++ c.pipe = c.written

structure NiosOk (b : Nios) : Prop where
  short : b.wbuf.length ≤ LINE_BUFSIZ
  tag : b.wbuf ≠ [] → b.wtag < 2 ^ 16
  sized : ∀ f ∈ b.sent, f.Sized
  between : b.unsent = [] → b.out = b.sent.flatMap Frame.bytes
  within : b.unsent ≠ [] →
    b.wbuf ≠ [] ∧ ∃ part, b.out = b.sent.flatMap Frame.bytes ++ part ∧ part ++ b.unsent = b.frame.bytes

structure Kept (chld : Task) (b : Nios) (r : Task × Nios) : Prop where
  rpid : r.1.rpid = chld.rpid
  nios : NiosOk r.2
  own : ∀ w, ChannelOk r.2 chld.rpid w (r.1.channel w)
  others : ∀ rpid w c, rpid ≠ chld.rpid → ChannelOk b rpid w c → ChannelOk r.2 rpid w c

structure RelayInv (s : Relay) : Prop where
  nodup : (s.children.map Task.rpid).Nodup
  small : ∀ t ∈ s.children, t.rpid < 2 ^ 16
  nios : NiosOk s.nios
  channels : ∀ t ∈ s.children, ∀ w, ChannelOk s.nios t.rpid w (t.channel w)

variable {chld : Task} {b : Nios} {w : Which} {c : OutputChannel} {rpid : Nat}

@[simp] theorem channel_setChannel (t : Task) (c : OutputChannel) (w w' : Which) :
    (t.setChannel c w).channel w' = if w' = w then c else t.channel w' := by
  cases w <;> cases w' <;> rfl

@[simp] theorem rpid_setChannel (t : Task) (c : OutputChannel) (w : Which) : (t.setChannel c w).rpid = t.rpid := by
  cases w <;> rfl

theorem payloads_append (fs gs : List Frame) (cmd : ResNiosCmd) (rpid : Nat) :
    payloads (fs ++ gs) cmd rpid = payloads fs cmd rpid ++ payloads gs cmd rpid := by
  simp [payloads]

theorem code_injective (c d : ResNiosCmd) (h : c.code = d.code) : c = d := by
  revert h
  cases c <;> cases d <;> decide

theorem opCode_injective (w w' : Which) (h : w.opCode = w'.opCode) : w = w' := by
  revert h
  cases w <;> cases w' <;> decide

/-- A step of one task keeps the invariant, whatever it does to its channels and the write buffer. -/
theorem RelayInv.onTask (hinv : RelayInv s) (i : Nat)
    (hf : ∀ chld ∈ s.children, Kept chld s.nios (f chld s.nios)) : RelayInv (s.onTask i f) := by
  unfold Relay.onTask
  split
  · exact hinv
  next chld hc =>
    obtain ⟨hi, hg⟩ := List.getElem?_eq_some_iff.mp hc
    have hmem : chld ∈ s.children := hg ▸ getElem_mem hi
    have hkept := hf chld hmem
    have hids : (s.children.set i (f chld s.nios).1).map Task.rpid = s.children.map Task.rpid := by
      refine ext_getElem? fun j => ?_
      simp only [List.getElem?_map, List.getElem?_set]
      split
      · next heq => simp [← heq, hi, hg, hkept.rpid]
      · rfl
    have htas : ∀ t ∈ s.children.set i (f chld s.nios).1,
        t = (f chld s.nios).1 ∨ t ∈ s.children ∧ t.rpid ≠ chld.rpid := by
      intro t ht
      obtain ⟨j, hj, rfl⟩ := mem_iff_getElem.mp ht
      rw [length_set] at hj
      rw [getElem_set]
      split
      · exact Or.inl rfl
      · next hne =>
        refine Or.inr ⟨getElem_mem hj, fun heq => hne ?_⟩
        have hs := inj_on_of_nodup_map hinv.nodup (getElem_mem hj) hmem heq
        exact (hinv.nodup.of_map _).getElem_inj_iff.mp (hg.trans hs.symm)
    refine ⟨hids ▸ hinv.nodup, ?_, hkept.nios, ?_⟩
    · intro t ht
      rcases htas t ht with rfl | ⟨ht, -⟩
      · rw [hkept.rpid]
        exact hinv.small chld hmem
      · exact hinv.small t ht
    · intro t ht w
      rcases htas t ht with rfl | ⟨ht, hne⟩
      · rw [hkept.rpid]
        exact hkept.own w
      · exact hkept.others _ _ _ hne (hinv.channels t ht w)

theorem Kept.ofChannel (hn : NiosOk b) (hchld : ∀ w, ChannelOk b chld.rpid w (chld.channel w)) (hc : ChannelOk b chld.rpid w c) : Kept chld b (chld.setChannel c w, b) := by
  refine ⟨rpid_setChannel .., hn, fun w' => ?_, fun _ _ _ _ h => h⟩
  rw [channel_setChannel]
  split
  · next heq => exact heq ▸ hc
  · exact hchld w'

theorem ChannelOk.print (hc : ChannelOk b rpid w c)
    (data : Header.Bytes) : ChannelOk b rpid w { c with written := c.written ++ data, pipe := c.pipe ++ data } := by
  refine ⟨hc.short, ?_⟩
  rw [← hc.flow]
  simp only [append_assoc]

theorem ChannelOk.fill (hc : ChannelOk b rpid w c) (n : Nat) : ChannelOk b rpid w (c.fill n) := by
  have hs := hc.short
  have hs : c.pipe.take (min n (LINE_BUFSIZ - c.buffer.length)) <+: c.pipe := take_prefix ..
  have hl : (c.pipe.take (min n (LINE_BUFSIZ - c.buffer.length))).length ≤ LINE_BUFSIZ - c.buffer.length := by
    rw [length_take]
    omega
  unfold OutputChannel.fill
  generalize c.pipe.take (min n (LINE_BUFSIZ - c.buffer.length)) = got at hs hl ⊢
  obtain ⟨rest, hr⟩ := hs
  refine ⟨?_, ?_⟩
  · simp only [length_append]
    omega
  · rw [← hc.flow, ← hr]
    simp

theorem ChannelOk.clear (hc : ChannelOk b rpid w c)
    (r : PipeRead) (final : Option PipeRead) : ChannelOk b rpid w (child_channel_clear r final c) := by
  have he : ChannelOk b rpid w { c with endFlag := true } := ⟨hc.short, hc.flow⟩
  unfold child_channel_clear
  split
  · exact hc
  split
  · exact hc.fill _
  · exact he
  · exact he
  split
  · exact hc
  · exact ⟨(hc.fill _).short, (hc.fill _).flow⟩
  · exact he

theorem inTransit_of_empty (h : b.wbuf = []) (w : Which) (rpid : Nat) : inTransit b w rpid = [] := by
  rw [inTransit, h, ite_self]

theorem dochild_output_kept (linebuf : Bool) (w : Which) (hn : NiosOk b) (hsma : chld.rpid < 2 ^ 16)
    (hchld : ∀ w, ChannelOk b chld.rpid w (chld.channel w)) : Kept chld b (dochild_output linebuf w chld b) := by
  have hs : Kept chld b (chld, b) := ⟨rfl, hn, hchld, fun _ _ _ _ h => h⟩
  have hc := hchld w
  unfold dochild_output
  dsimp only
  split
  · exact hs
  next hw =>
  have hw : b.wbuf = [] := by simpa using hw
  split
  · exact .ofChannel hn hchld ⟨hc.short, hc.flow⟩
  split
  · exact hs
  -- nothing is half sent while the write buffer is empty
  have hu : b.unsent = [] := by
    by_contra hne
    exact (hn.within hne).1 hw
  refine ⟨rpid_setChannel .., ⟨?_, fun _ => hsma, hn.sized, hn.between, fun hne => absurd hu hne⟩, ?_, ?_⟩
  · have hs := hc.short
    simp only [length_take]
    omega
  · intro w'
    rw [channel_setChannel]
    split
    · next heq =>
      subst heq
      refine ⟨?_, ?_⟩
      · have hs := hc.short
        simp only [length_drop]
        omega
      · rw [← hc.flow, inTransit_of_empty hw]
        simp [inTransit]
    · next hne =>
      have ho := hchld w'
      refine ⟨ho.short, ?_⟩
      rw [← ho.flow, inTransit_of_empty hw, inTransit, if_neg]
      exact fun h => hne (opCode_injective _ _ h.1).symm
  · intro rpid w' c hne ho
    refine ⟨ho.short, ?_⟩
    rw [← ho.flow, inTransit_of_empty hw, inTransit, if_neg]
    exact fun h => hne h.2.symm

theorem turn_kept (linebuf : Bool) (hn : NiosOk b) (hs : chld.rpid < 2 ^ 16)
    (hc : ∀ w, ChannelOk b chld.rpid w (chld.channel w)) : Kept chld b (turn linebuf chld b) := by
  have hmov := fun w => dochild_output_kept linebuf w hn hs hc
  unfold turn
  split
  · exact hmov _
  split
  · exact hmov _
  split
  · exact hmov _
  split
  · exact hmov _
  · exact ⟨rfl, hn, hc, fun _ _ _ _ h => h⟩

theorem RelayInv.turns (linebuf : Bool) (places : List Nat) (hi : RelayInv s) : RelayInv (turns linebuf places s) := by
  induction places generalizing s with
  | nil => exact hi
  | cons i places ih =>
    have hturn : RelayInv (s.onTask i (turn linebuf)) :=
      hi.onTask i fun chld hc => turn_kept linebuf hi.nios (hi.small chld hc) (hi.channels chld hc)
    simp only [Res.turns]
    split
    · exact ⟨hturn.nodup, hturn.small, hturn.nios, hturn.channels⟩
    · exact ih hturn

theorem niosHeader_sized (h : payload.length < 2 ^ 32) (cmd : ResNiosCmd) (tag : Nat) :
    Frame.Sized ⟨niosHeader cmd tag payload, payload⟩ := by
  exact Nat.mod_eq_of_lt h

theorem NiosOk.frame_sized (hn : NiosOk b) : b.frame.Sized := by
  have hs := hn.short
  rw [LINE_BUFSIZ] at hs
  exact niosHeader_sized (by omega) _ _

theorem payloads_singleton (f : Frame) (cmd : ResNiosCmd) (rpid : Nat) :
    payloads [f] cmd rpid = if f.hdr.opCode = cmd.code ∧ f.hdr.reserved.toNat = rpid then f.payload else [] := by
  rw [payloads, filter_singleton]
  split
  · next h =>
    rw [decide_eq_true h]
    exact append_nil _
  · next h =>
    rw [decide_eq_false h]
    rfl

theorem payloads_notice (notice : Notice) (w : Which) (rpid : Nat) : payloads [notice.frame] w.opCode rpid = [] := by
  rw [payloads_singleton, if_neg]
  exact fun h => notice.notOutput w (code_injective _ _ h.1)

theorem payloads_frame (ht : b.wtag < 2 ^ 16) (w : Which) (rpid : Nat) :
    payloads [b.frame] w.opCode rpid = inTransit b w rpid := by
  have hcode : b.opCode.code = w.opCode.code ↔ b.opCode = w.opCode := ⟨code_injective _ _, congrArg _⟩
  have hr : (UInt16.ofNat b.wtag).toNat = b.wtag := by
    exact Nat.mod_eq_of_lt ht
  rw [payloads_singleton, inTransit]
  simp only [Nios.frame, niosHeader, hr, hcode]

theorem deliver_notification_ok (notice : Notice) (hn : NiosOk b) : NiosOk (deliver_notification notice b) ∧
      ∀ rpid w c, ChannelOk b rpid w c → ChannelOk (deliver_notification notice b) rpid w c := by
  unfold deliver_notification
  split
  · next hu =>
    refine ⟨⟨hn.short, hn.tag, ?_, ?_, fun hne => absurd hu hne⟩, ?_⟩
    · exact forall_mem_append.mpr ⟨hn.sized, forall_mem_singleton.mpr (niosHeader_sized notice.short _ _)⟩
    · simp [hn.between hu]
    · intro rpid w c hc
      refine ⟨hc.short, ?_⟩
      rw [← hc.flow, payloads_append, payloads_notice, append_nil]
      rfl
  · exact ⟨hn, fun _ _ _ hc => hc⟩

theorem bytes_ne_nil (f : Frame) : f.bytes ≠ [] := by
  intro h
  have hl := f.bytes_length
  rw [h, length_nil, LSF_HEADER_LEN] at hl
  omega

theorem NiosOk.begun (hn : NiosOk b) (hw : b.wbuf ≠ []) : NiosOk b.begun ∧ b.begun.unsent ≠ [] := by
  unfold Nios.begun
  split
  · next hu =>
    refine ⟨⟨hn.short, hn.tag, hn.sized, fun h => absurd h (bytes_ne_nil _), fun _ => ⟨hw, [], ?_, rfl⟩⟩, ?_⟩
    · simpa using hn.between hu
    · exact bytes_ne_nil _
  · next hu => exact ⟨hn, hu⟩

theorem write_ok (n : Nat) (hn : NiosOk b) (hu : b.unsent ≠ []) :
    let b' := { b with unsent := b.unsent.drop n, out := b.out ++ b.unsent.take n }
    let r := if b'.unsent = [] then { b' with wbuf := [], sent := b.sent ++ [b.frame] } else b'
    NiosOk r ∧ ∀ rpid w c, ChannelOk b rpid w c → ChannelOk r rpid w c := by
  obtain ⟨hw, part, ho, hpart⟩ := hn.within hu
  dsimp only
  split
  · next hd =>
    have ht : b.unsent.take n = b.unsent := by
      have := take_append_drop n b.unsent
      rwa [hd, append_nil] at this
    refine ⟨⟨Nat.zero_le _, fun hne => absurd rfl hne, ?_, ?_, fun hne => absurd hd hne⟩, ?_⟩
    · exact forall_mem_append.mpr ⟨hn.sized, forall_mem_singleton.mpr hn.frame_sized⟩
    · rw [ht, ho, append_assoc, hpart]
      simp
    · intro rpid w c hc
      refine ⟨hc.short, ?_⟩
      rw [← hc.flow, payloads_append, payloads_frame (hn.tag hw)]
      congr 2
      exact (congrArg _ (inTransit_of_empty rfl w rpid)).trans (append_nil _)
  · next hmore =>
    refine ⟨⟨hn.short, hn.tag, hn.sized, fun h => absurd h hmore, fun _ => ⟨hw, part ++ b.unsent.take n, ?_, ?_⟩⟩,
      ?_⟩
    · rw [ho, append_assoc]
    · rw [append_assoc, take_append_drop]
      exact hpart
    · exact fun rpid w c hc => ⟨hc.short, hc.flow⟩

theorem donios_write_ok (n : Nat) (hn : NiosOk b) :
    NiosOk (donios_write n b) ∧ ∀ rpid w c, ChannelOk b rpid w c → ChannelOk (donios_write n b) rpid w c := by
  unfold donios_write
  split
  · exact ⟨hn, fun _ _ _ hc => hc⟩
  next hwork =>
    have hw : b.wbuf ≠ [] := by
      intro he
      have hu : b.unsent ≠ [] := fun h => hwork ⟨h, he⟩
      exact (hn.within hu).1 he
    obtain ⟨hb, hu⟩ := hn.begun hw
    obtain ⟨hok, hcha⟩ := write_ok n hb hu
    refine ⟨hok, fun rpid w c hc => hcha rpid w c ⟨hc.short, ?_⟩⟩
    rw [← hc.flow, Nios.begun]
    split <;> rfl

theorem relayStep_inv (op : RelayOp) (s : Relay) (hi : RelayInv s) : RelayInv (relayStep op s) := by
  cases op with
  | print i w data =>
    exact hi.onTask i fun chld hc =>
      .ofChannel hi.nios (hi.channels chld hc) ((hi.channels chld hc w).print data)
  | clear i w r final =>
    exact hi.onTask i fun chld hc =>
      .ofChannel hi.nios (hi.channels chld hc) ((hi.channels chld hc w).clear r final)
  | move i w linebuf =>
    exact hi.onTask i fun chld hc =>
      dochild_output_kept linebuf w hi.nios (hi.small chld hc) (hi.channels chld hc)
  | keep linebuf =>
    simp only [relayStep, houseKeeping_output]
    split
    · exact RelayInv.turns linebuf _ ⟨hi.nodup, hi.small, hi.nios, hi.channels⟩
    · exact hi
  | write n =>
    obtain ⟨hn, hc⟩ := donios_write_ok n hi.nios
    exact ⟨hi.nodup, hi.small, hn, fun t ht w => hc _ _ _ (hi.channels t ht w)⟩
  | notify notice =>
    obtain ⟨hn, hc⟩ := deliver_notification_ok notice hi.nios
    exact ⟨hi.nodup, hi.small, hn, fun t ht w => hc _ _ _ (hi.channels t ht w)⟩

def relayStart (rpids : List Nat) : Relay where
  children := rpids.map fun rpid => ⟨rpid, ⟨[], false, false, [], []⟩, ⟨[], false, false, [], []⟩⟩
  nios := ⟨[], [], 0, .RES2NIOS_CONNECT, [], []⟩
  previousIndex := -1

theorem relayStart_inv (hn : rpids.Nodup) (hs : ∀ r ∈ rpids, r < 2 ^ 16) : RelayInv (relayStart rpids) := by
  refine ⟨?_, ?_, ?_, ?_⟩
  · simpa [relayStart, Function.comp_def] using hn
  · intro t ht
    obtain ⟨rpid, hr, rfl⟩ := mem_map.mp ht
    exact hs rpid hr
  · exact ⟨Nat.zero_le _, fun hne => absurd rfl hne, fun f hf => absurd hf not_mem_nil, fun _ => rfl,
      fun hne => absurd rfl hne⟩
  · intro t ht w
    obtain ⟨rpid, -, rfl⟩ := mem_map.mp ht
    cases w <;> exact ⟨Nat.zero_le _, by rw [inTransit_of_empty rfl]; rfl⟩

theorem NiosOk.frames (hn : NiosOk b) : frames b.out = b.sent := by
  by_cases hu : b.unsent = []
  · have ha := frames_append hn.sized (Or.inl rfl)
    rwa [append_nil, ← hn.between hu] at ha
  · obtain ⟨-, part, ho, hpart⟩ := hn.within hu
    rw [ho]
    refine frames_append hn.sized (Or.inr ⟨b.frame, hn.frame_sized, ⟨b.unsent, hpart⟩, ?_⟩)
    have hpos := length_pos_iff.mpr hu
    rw [← hpart, length_append]
    omega

/-- The complete frames on the socket are those put together, a channel's output in order. -/
theorem output_in_order (rpids : List Nat) (hnodup : rpids.Nodup) (hsmall : ∀ r ∈ rpids, r < 65536) (ops : List RelayOp) :
    let s := Run.run relayStep ops (relayStart rpids)
    frames s.nios.out = s.nios.sent ∧ (∀ f ∈ frames s.nios.out, f.hdr.length.toNat = f.payload.length) ∧
      ∀ t ∈ s.children, ∀ w, payloads (frames s.nios.out) w.opCode t.rpid <+: (t.channel w).written := by
  intro s
  have hi : RelayInv s := Run.run_preserves relayStep_inv ops _ (relayStart_inv hnodup hsmall)
  have hf := hi.nios.frames
  refine ⟨hf, ?_, ?_⟩
  · rw [hf]
    exact hi.nios.sized
  · intro t ht w
    rw [hf, ← (hi.channels t ht w).flow]
    simp only [append_assoc]
    exact prefix_append ..

theorem output_in_order_lines :
    let s := Run.run relayStep [.print 0 .out [97, 10, 98], .clear 0 .out (.got 3) none, .keep true, .write 5,
      .print 1 .err [99], .clear 1 .err (.got 1) none, .write 13, .move 1 .err false, .write 17] (relayStart [7, 8])
    payloads (frames s.nios.out) .RES2NIOS_STDOUT 7 = [97, 10] ∧ payloads (frames s.nios.out) .RES2NIOS_STDERR 8 = [99] ∧
      ∀ t ∈ s.children, ∀ w, payloads (frames s.nios.out) w.opCode t.rpid <+: (t.channel w).written := by
  intro s
  refine ⟨by decide, by decide, ?_⟩
  exact (output_in_order [7, 8] (by decide) (by decide) _).2.2

end OpenLava.Res

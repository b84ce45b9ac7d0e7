import Mathlib.Tactic
import OpenLava.Run

/-!
# Standard input of the tasks

The RES reads frames from the NIOS into one buffer, copies them to the buffers of the tasks and writes these to the
tasks, which run and have their standard input open.
-/

namespace OpenLava.Res

open List

abbrev Bytes := List UInt8

def BUFSIZ : Nat := 8192

/-- A frame `NIOS2RES_STDIN`; tag 0 is for all tasks. -/
structure StdinFrame where
  tag : Nat
  payload : Bytes

structure Child where
  rpid : Nat
  (i_buf written : Bytes)
  deriving DecidableEq

/-- The reading side of `conn2NIOS`; the counts of the buffers are their lengths. -/
structure Conn where
  rbuf : Bytes
  rcount : Nat
  rtag : Int
  task_duped : List Nat
  deriving DecidableEq

def Conn.nextTag (b : Conn) : Int := if b.rcount = 0 then -1 else b.rtag

/-- The case `DOREAD` of `dochild_buffer`; `rpids` are the ids of all tasks. -/
def dochild_buffer (rpids : List Nat) (chld : Child) (b : Conn) : Child × Conn :=
  if chld.i_buf ≠ [] then (chld, b)
  else if b.rtag > 0 then
    if b.rtag = chld.rpid then
      ({ chld with i_buf := b.rbuf }, { b with rbuf := [], rtag := b.nextTag, task_duped := [] })
    else (chld, b)
  else if b.rtag = 0 then
    if chld.rpid ∈ b.task_duped then (chld, b)
    else if ∀ r ∈ rpids, r ∈ b.task_duped ++ [chld.rpid] then
      ({ chld with i_buf := b.rbuf }, { b with rbuf := [], rtag := b.nextTag, task_duped := [] })
    else ({ chld with i_buf := b.rbuf }, { b with task_duped := b.task_duped ++ [chld.rpid] })
  else (chld, b)

/-- The loop of `houseKeeping` over the tasks. -/
def copyAll (rpids : List Nat) : List Child → Conn → List Child × Conn
  | [], b => ([], b)
  | chld :: rest, b =>
    let (chld', b') := if chld.i_buf = [] then dochild_buffer rpids chld b else (chld, b)
    let (rest', b'') := copyAll rpids rest b'
    (chld' :: rest', b'')

/-- Whether a task is left that what is in the buffer is for. -/
def wanted (rpids : List Nat) (b : Conn) : Bool :=
  if b.rtag = 0 then rpids.any fun r => r ∉ b.task_duped else rpids.any fun r => (r : Int) = b.rtag

/-- The part of `houseKeeping` about standard input. -/
def houseKeeping (children : List Child) (b : Conn) : List Child × Conn :=
  let rpids := children.map Child.rpid
  let b := if b.rbuf ≠ [] ∧ wanted rpids b = false then { b with rbuf := [], rtag := -1, task_duped := [] } else b
  if b.rbuf ≠ [] then copyAll rpids children b else (children, b)

/-- The RES with the frames on its socket; `taken` records what was read. -/
structure Stdin where
  children : List Child
  conn : Conn
  cur : Bytes
  frames : List StdinFrame
  curTag : Nat
  taken : List StdinFrame

/-- `DOREAD` of `donios_sock`, where `read` finds `n` bytes at most. -/
def donios_sock (n : Nat) (s : Stdin) : Stdin :=
  if s.conn.rcount = 0 then
    match s.frames with
    | [] => s
    | f :: frames =>
      { s with conn := { s.conn with rtag := f.tag, rcount := f.payload.length }
               cur := f.payload, frames := frames, curTag := f.tag }
  else if s.conn.rbuf ≠ [] then s
  else
    let got := s.cur.take (min n (min s.conn.rcount BUFSIZ))
    if got = [] then s
    else
      { s with conn := { s.conn with rbuf := got, rcount := s.conn.rcount - got.length }
               cur := s.cur.drop got.length, taken := s.taken ++ [⟨s.curTag, got⟩] }

/-- `DOWRITE` of `dochild_stdio`, where `write` takes `n` bytes at most. -/
def dochild_stdio (n : Nat) (chld : Child) : Child :=
  { chld with i_buf := chld.i_buf.drop n, written := chld.written ++ chld.i_buf.take n }

inductive StdinOp where
  | nios (n : Nat)
  | keep
  | write (rpid n : Nat)

def stdinStep : StdinOp → Stdin → Stdin
  | .nios n, s => if s.conn.rbuf = [] then donios_sock n s else s
  | .keep, s =>
    let r := houseKeeping s.children s.conn
    { s with children := r.1, conn := r.2 }
  | .write rpid n, s =>
    { s with children := s.children.map fun chld => if chld.rpid = rpid then dochild_stdio n chld else chld }

def IsFor (tag rpid : Nat) : Prop := tag = 0 ∨ tag = rpid
  deriving Decidable

def addressed (rpid : Nat) (frames : List StdinFrame) : Bytes :=
  (frames.filter fun f => IsFor f.tag rpid).flatMap StdinFrame.payload

variable {r : Child × Conn} {sent : List StdinFrame} {s : Stdin}

theorem addressed_append (rpid : Nat) (fs gs : List StdinFrame) :
    addressed rpid (fs ++ gs) = addressed rpid fs ++ addressed rpid gs := by
  simp [addressed]

theorem addressed_cons (rpid : Nat) (f : StdinFrame) (fs : List StdinFrame) :
    addressed rpid (f :: fs) = (if IsFor f.tag rpid then f.payload else []) ++ addressed rpid fs := by
  by_cases h : IsFor f.tag rpid <;> simp [addressed, h]

def Waits (b : Conn) (rpid : Nat) : Prop := b.rtag = rpid ∨ b.rtag = 0 ∧ rpid ∉ b.task_duped
  deriving Decidable

def waiting (b : Conn) (rpid : Nat) : Bytes := if Waits b rpid then b.rbuf else []

def Flows (taken : List StdinFrame) (b : Conn) (chld : Child) : Prop :=
  chld.written ++ chld.i_buf ++ waiting b chld.rpid = addressed chld.rpid taken

structure ConnOk (rpids : List Nat) (curTag : Nat) (b : Conn) : Prop where
  duped : b.rbuf = [] → b.task_duped = []
  undone : b.rbuf ≠ [] → b.rtag = 0 → rpids ≠ [] → ∃ r ∈ rpids, r ∉ b.task_duped
  tag : b.rtag = curTag ∨ b.rtag = -1 ∧ (b.rbuf = [] ∧ b.rcount = 0 ∨ ∀ r ∈ rpids, ¬ IsFor curTag r)

theorem waiting_of_empty (h : b.rbuf = []) (rpid : Nat) : waiting b rpid = [] := by
  simp [waiting, h]

theorem waiting_of_not (h : ¬ Waits b rpid) : waiting b rpid = [] := if_neg h

variable {rpids : List Nat} {curTag : Nat} {taken : List StdinFrame} {b : Conn} {pre rest : List Child} {chld : Child}

theorem ConnOk.nextTag (h : ConnOk rpids curTag b) (hn : 0 ≤ b.rtag) :
    ConnOk rpids curTag { b with rbuf := [], rtag := b.nextTag, task_duped := [] } := by
  refine ⟨fun _ => rfl, fun hne => absurd rfl hne, ?_⟩
  unfold Conn.nextTag
  split
  · next hc => exact Or.inr ⟨rfl, Or.inl ⟨rfl, hc⟩⟩
  · rcases h.tag with ht | ⟨ht, -⟩
    · exact Or.inl ht
    · omega

/-- What `dochild_buffer` can do. -/
inductive Copies (rpids : List Nat) (chld : Child) (b : Conn) : Child × Conn → Prop
  | nothing (hwhy : chld.i_buf ≠ [] ∨ ¬ Waits b chld.rpid) : Copies rpids chld b (chld, b)
  /-- The last copy. -/
  | empties (hbuf : chld.i_buf = []) (htag : 0 ≤ b.rtag) (hwaits : Waits b chld.rpid)
      (hlast : ∀ r ∈ rpids, r ≠ chld.rpid → ¬ Waits b r) :
      Copies rpids chld b
        ({ chld with i_buf := b.rbuf }, { b with rbuf := [], rtag := b.nextTag, task_duped := [] })
  /-- A copy that others have to follow. -/
  | notes (hbuf : chld.i_buf = []) (htag : b.rtag = 0) (hwaits : chld.rpid ∉ b.task_duped)
      (hmore : ∃ r ∈ rpids, r ∉ b.task_duped ++ [chld.rpid]) :
      Copies rpids chld b ({ chld with i_buf := b.rbuf }, { b with task_duped := b.task_duped ++ [chld.rpid] })

theorem dochild_buffer_copies (hpos : ∀ r ∈ rpids, 0 < r) (hmem : chld.rpid ∈ rpids) :
    Copies rpids chld b (dochild_buffer rpids chld b) := by
  have hr := hpos _ hmem
  unfold dochild_buffer
  split
  · next hb => exact .nothing (Or.inl hb)
  next hb =>
    have hb : chld.i_buf = [] := by simpa using hb
    split
    · next ht =>
      split
      · next heq =>
        refine .empties hb (by omega) (Or.inl heq) ?_
        rintro r hr hne (hw | ⟨hz, -⟩)
        · rw [heq] at hw
          exact hne (by exact_mod_cast hw.symm)
        · omega
      · next hne =>
        refine .nothing (Or.inr ?_)
        rintro (hw | ⟨hz, -⟩)
        · exact hne hw
        · omega
    next ht =>
      split
      · next hz =>
        split
        · next hd =>
          refine .nothing (Or.inr ?_)
          rintro (hw | ⟨-, hw⟩)
          · omega
          · exact hw hd
        next hd =>
          split
          · next ha =>
            refine .empties hb (by omega) (Or.inr ⟨hz, hd⟩) ?_
            rintro r hr hne (hw | ⟨-, hw⟩)
            · have := hpos r hr
              omega
            · rcases mem_append.mp (ha r hr) with hin | hin
              · exact hw hin
              · exact hne (mem_singleton.mp hin)
          · next ha =>
            refine .notes hb hz hd ?_
            by_contra hn
            exact ha fun r hr => by_contra fun ho => hn ⟨r, hr, ho⟩
      · next hn =>
        refine .nothing (Or.inr ?_)
        rintro (hw | ⟨hz, -⟩)
        · omega
        · exact hn hz

theorem copyAll_cons (rpids : List Nat) (chld : Child) (rest : List Child) (b : Conn) : copyAll rpids (chld :: rest) b =
      ((dochild_buffer rpids chld b).1 :: (copyAll rpids rest (dochild_buffer rpids chld b).2).1,
        (copyAll rpids rest (dochild_buffer rpids chld b).2).2) := by
  have hs : (if chld.i_buf = [] then dochild_buffer rpids chld b else (chld, b)) = dochild_buffer rpids chld b := by
    split
    · rfl
    · next hb => simp [dochild_buffer, hb]
  simp only [copyAll, hs]

theorem Copies.flows (hc : Copies rpids chld b r) (hpos : 0 < chld.rpid) (hf : Flows taken b chld) :
    Flows taken r.2 r.1 ∧ ∀ d : Child, d.rpid ∈ rpids → d.rpid ≠ chld.rpid → Flows taken b d → Flows taken r.2 d := by
  cases hc with
  | nothing => exact ⟨hf, fun d _ _ hd => hd⟩
  | empties hb ht hwai hlast =>
    refine ⟨?_, ?_⟩
    · unfold Flows at hf ⊢
      rw [waiting_of_empty rfl]
      rw [waiting, if_pos hwai, hb, append_nil] at hf
      simpa using hf
    · intro d hd hne hflow
      unfold Flows at hflow ⊢
      rw [waiting_of_empty rfl]
      rwa [waiting_of_not (hlast _ hd hne)] at hflow
  | notes hb ht hwai hmore =>
    refine ⟨?_, ?_⟩
    · have hdone : ¬ Waits { b with task_duped := b.task_duped ++ [chld.rpid] } chld.rpid := by
        simp only [Waits, ht]
        simp
        omega
      unfold Flows at hf ⊢
      rw [waiting_of_not hdone]
      have hw : Waits b chld.rpid := Or.inr ⟨ht, hwai⟩
      rw [waiting, if_pos hw, hb, append_nil] at hf
      simpa using hf
    · intro d hd hne hflow
      have hi : Waits { b with task_duped := b.task_duped ++ [chld.rpid] } d.rpid ↔ Waits b d.rpid := by
        simp [Waits, hne]
      unfold Flows at hflow ⊢
      rw [← hflow]
      simp only [waiting, hi]

theorem Copies.connOk (hc : Copies rpids chld b r) (hok : ConnOk rpids curTag b)
    (hs : b.rbuf = [] → b.rtag = 0 → chld.i_buf ≠ []) : ConnOk rpids curTag r.2 := by
  cases hc with
  | nothing => exact hok
  | empties hb ht hw hlast => exact hok.nextTag ht
  | notes hb ht hw hmore =>
    have hne : b.rbuf ≠ [] := fun he => hs he ht hb
    exact ⟨fun he => absurd he hne, fun _ _ _ => hmore, hok.tag⟩

/-- The tasks behind the last one that has to copy a part for all have something buffered. -/
def LastOk (pre rest : List Child) (b : Conn) : Prop :=
  (b.rbuf = [] → b.rtag = 0 → ∀ d ∈ rest, d.i_buf ≠ []) ∧
    (b.rbuf ≠ [] → b.rtag = 0 → 0 < b.rcount → ∀ l chld r, rest = l ++ chld :: r → chld.rpid ∉ b.task_duped →
      (∀ d ∈ pre ++ rest, d.rpid ∉ b.task_duped → d.i_buf = []) → (∀ d ∈ r, d.rpid ∈ b.task_duped) →
      ∀ d ∈ r, d.i_buf ≠ [])

theorem rpid_ne_of_nodup (hn : ((pre ++ chld :: rest).map Child.rpid).Nodup) :
    (∀ d ∈ pre, d.rpid ≠ chld.rpid) ∧ ∀ d ∈ rest, d.rpid ≠ chld.rpid := by
  simp only [map_append, map_cons, nodup_append, nodup_cons, mem_map, mem_cons] at hn
  obtain ⟨-, ⟨hr, -⟩, hpre⟩ := hn
  refine ⟨fun d hd => hpre _ ⟨d, hd, rfl⟩ _ (Or.inl rfl), ?_⟩
  intro d hd heq
  exact hr ⟨d, hd, heq⟩

theorem Copies.lastOk (hc : Copies rpids chld b r)
    (hr : rpids = (pre ++ chld :: rest).map Child.rpid) (hn : rpids.Nodup) (hpos : ∀ p ∈ rpids, 0 < p)
    (hlast : LastOk pre (chld :: rest) b) : LastOk (pre ++ [r.1]) rest r.2 := by
  subst hr
  obtain ⟨hpre, hrest⟩ := rpid_ne_of_nodup hn
  have hmem : ∀ d ∈ pre ++ chld :: rest, d = chld ∨ d.rpid ≠ chld.rpid := by
    intro d hd
    rcases mem_append.mp hd with hd | hd
    · exact Or.inr (hpre d hd)
    rcases mem_cons.mp hd with hd | hd
    · exact Or.inl hd
    · exact Or.inr (hrest d hd)
  cases hc with
  | nothing =>
    refine ⟨fun he ht d hd => hlast.1 he ht d (mem_cons_of_mem _ hd), ?_⟩
    rintro hb ht hcou l c r rfl hc hi hr
    refine hlast.2 hb ht hcou (chld :: l) c r rfl hc ?_ hr
    simpa using hi
  | empties hb ht hw hl =>
    refine ⟨?_, fun hne => absurd rfl hne⟩
    intro _ hn
    -- the tag stays 0 only where the frame has more to come
    have ⟨hcou, hz⟩ : 0 < b.rcount ∧ b.rtag = 0 := by
      simp only [Conn.nextTag] at hn
      split at hn <;> omega
    by_cases he : b.rbuf = []
    · exact fun d hd => hlast.1 he hz d (mem_cons_of_mem _ hd)
    · have hdup : ∀ d ∈ pre ++ chld :: rest, d.rpid ≠ chld.rpid → d.rpid ∈ b.task_duped := by
        intro d hd hne
        by_contra ho
        exact hl _ (mem_map_of_mem hd) hne (Or.inr ⟨hz, ho⟩)
      have hu : chld.rpid ∉ b.task_duped := by
        rcases hw with hw | hw
        · have := hpos chld.rpid (mem_map_of_mem (by simp))
          omega
        · exact hw.2
      refine hlast.2 he hz hcou [] chld rest rfl hu ?_ ?_
      · intro d hd ho
        rcases hmem d hd with rfl | hne
        · exact hb
        · exact absurd (hdup d hd hne) ho
      · exact fun d hd => hdup d (by simp [hd]) (hrest d hd)
  | notes hb ht hw hmore =>
    refine ⟨fun he ht d hd => hlast.1 he ht d (mem_cons_of_mem _ hd), ?_⟩
    rintro hne - hcou l c r rfl hc hi hr
    have hc : c.rpid ∉ b.task_duped := fun hin => hc (mem_append_left _ hin)
    refine hlast.2 hne ht hcou (chld :: l) c r rfl hc ?_ ?_
    · intro d hd ho
      rcases hmem d hd with rfl | hdne
      · exact hb
      · refine hi d ?_ (by simp [ho, hdne])
        have hne' : d ≠ chld := fun heq => hdne (by rw [heq])
        simp only [mem_append, mem_cons, hne', false_or] at hd ⊢
        tauto
    · intro d hd
      have hdne := hrest d (by simp [hd])
      simpa [hdne] using hr d hd

theorem Copies.rpid (hc : Copies rpids chld b r) : r.1.rpid = chld.rpid := by
  cases hc <;> rfl

theorem copyAll_rcount (rpids : List Nat) (children : List Child) (b : Conn) :
    (copyAll rpids children b).2.rcount = b.rcount := by
  induction children generalizing b with
  | nil => rfl
  | cons chld rest ih =>
    rw [copyAll_cons, ih]
    unfold dochild_buffer
    split_ifs <;> rfl

theorem copyAll_keeps (hn : rpids.Nodup) (hpos : ∀ p ∈ rpids, 0 < p) (hr : rpids = (pre ++ rest).map Child.rpid)
    (hok : ConnOk rpids curTag b) (hlast : LastOk pre rest b) (hf : ∀ d ∈ pre ++ rest, Flows taken b d) :
    (copyAll rpids rest b).1.map Child.rpid = rest.map Child.rpid ∧ ConnOk rpids curTag (copyAll rpids rest b).2 ∧
    ∀ d ∈ pre ++ (copyAll rpids rest b).1, Flows taken (copyAll rpids rest b).2 d := by
  induction rest generalizing pre b with
  | nil => exact ⟨rfl, hok, hf⟩
  | cons chld rest ih =>
    have hin : ∀ d ∈ pre ++ chld :: rest, d.rpid ∈ rpids := by
      rw [hr]
      exact fun d hd => mem_map_of_mem hd
    have hmem := hin chld (by simp)
    have hc := dochild_buffer_copies (b := b) hpos hmem
    rw [copyAll_cons]
    generalize dochild_buffer rpids chld b = r at hc ⊢
    obtain ⟨hown, ho⟩ := hc.flows (hpos _ hmem) (hf chld (by simp))
    have ⟨hpre, hrest⟩ := rpid_ne_of_nodup (hr ▸ hn)
    have hf' : ∀ d ∈ pre ++ [r.1] ++ rest, Flows taken r.2 d := by
      intro d hd
      simp only [mem_append, mem_singleton] at hd
      rcases hd with (hd | rfl) | hd
      · exact ho d (hin d (by simp [hd])) (hpre d hd) (hf d (by simp [hd]))
      · exact hown
      · exact ho d (hin d (by simp [hd])) (hrest d hd) (hf d (by simp [hd]))
    have hr' : rpids = (pre ++ [r.1] ++ rest).map Child.rpid := by
      simp [hr, hc.rpid]
    have hok' := hc.connOk hok fun he ht => hlast.1 he ht chld (by simp)
    obtain ⟨hi, hconn, ha⟩ := ih hr' hok' (hc.lastOk hr hn hpos hlast) hf'
    refine ⟨by simp [hi, hc.rpid], hconn, ?_⟩
    simpa using ha

structure StdinInv (sent : List StdinFrame) (s : Stdin) : Prop where
  nodup : (s.children.map Child.rpid).Nodup
  pos : ∀ r ∈ s.children.map Child.rpid, 0 < r
  left : s.conn.rcount = s.cur.length
  conn : ConnOk (s.children.map Child.rpid) s.curTag s.conn
  flows : ∀ chld ∈ s.children, Flows s.taken s.conn chld
  stream : ∀ rpid, addressed rpid s.taken ++ (if IsFor s.curTag rpid then s.cur else []) ++ addressed rpid s.frames =
    addressed rpid sent

/-- Before the copies for all: the tasks behind the last who waits have something buffered. -/
def CopyOk (children : List Child) (b : Conn) : Prop :=
  b.rtag = 0 → 0 < b.rcount → ∀ l chld r, children = l ++ chld :: r → chld.rpid ∉ b.task_duped →
    (∀ d ∈ children, d.rpid ∉ b.task_duped → d.i_buf = []) → (∀ d ∈ r, d.rpid ∈ b.task_duped) → ∀ d ∈ r, d.i_buf ≠ []

def StdinOk : StdinOp → Stdin → Prop
  | .keep, s => CopyOk s.children s.conn
  | _, _ => True

/-- The buffer is thrown away only where no task waits for what is in it. -/
theorem discard_keeps {children : List Child} (hok : ConnOk (children.map Child.rpid) curTag b) (hb : b.rbuf ≠ [])
    (hw : wanted (children.map Child.rpid) b = false) (hflo : ∀ d ∈ children, Flows taken b d) :
    ConnOk (children.map Child.rpid) curTag { b with rbuf := [], rtag := -1, task_duped := [] } ∧
      ∀ d ∈ children, Flows taken { b with rbuf := [], rtag := -1, task_duped := [] } d := by
  have hn : ∀ r ∈ children.map Child.rpid, ¬ Waits b r ∧ (b.rtag = 0 → False) := by
    intro r hr
    unfold wanted at hw
    split at hw
    · next hzero =>
      obtain ⟨r', hr', ho⟩ := hok.undone hb hzero (ne_nil_of_mem hr)
      simp only [any_eq_false, decide_eq_true_eq, not_not] at hw
      exact absurd (hw r' hr') ho
    · next hzero =>
      simp only [any_eq_false, decide_eq_true_eq] at hw
      refine ⟨?_, hzero⟩
      rintro (ht | ⟨hz, -⟩)
      · exact hw r hr ht.symm
      · exact hzero hz
  refine ⟨⟨fun _ => rfl, fun hne => absurd rfl hne, Or.inr ⟨rfl, Or.inr ?_⟩⟩, ?_⟩
  · intro r hr hf
    obtain ⟨hw, hzero⟩ := hn r hr
    rcases hok.tag with ht | ⟨-, ⟨he, -⟩ | hnot⟩
    · rcases hf with rfl | rfl
      · exact hzero ht
      · exact hw (Or.inl ht)
    · exact hb he
    · exact hnot r hr hf
  · intro d hd
    have hf := hflo d hd
    unfold Flows at hf ⊢
    rwa [waiting_of_not (hn _ (mem_map_of_mem hd)).1] at hf

theorem houseKeeping_keeps (hi : StdinInv sent s)
    (hok : CopyOk s.children s.conn) : StdinInv sent (stdinStep .keep s) := by
  obtain ⟨hn, hpos, hl, hc, hf, hs⟩ := hi
  simp only [stdinStep, houseKeeping]
  by_cases hd : s.conn.rbuf ≠ [] ∧ wanted (s.children.map Child.rpid) s.conn = false
  · obtain ⟨hc', hf'⟩ := discard_keeps hc hd.1 hd.2 hf
    simp only [if_pos hd, ne_eq, not_true_eq_false, if_false]
    exact ⟨hn, hpos, hl, hc', hf', hs⟩
  · rw [if_neg hd]
    split
    · next hb =>
      have hlast : LastOk [] s.children s.conn := ⟨fun he => absurd he hb, fun _ => hok⟩
      obtain ⟨hi, hc', hf'⟩ :=
        copyAll_keeps hn hpos rfl hc hlast (by simpa using hf)
      have hcou : (copyAll (s.children.map Child.rpid) s.children s.conn).2.rcount = s.conn.rcount := copyAll_rcount ..
      refine ⟨?_, ?_, ?_, ?_, hf', hs⟩
      · simpa only [hi] using hn
      · simpa only [hi] using hpos
      · simpa only [hcou] using hl
      · simpa only [hi] using hc'
    · exact ⟨hn, hpos, hl, hc, hf, hs⟩

theorem donios_sock_keeps (n : Nat) (hi : StdinInv sent s)
    (hb : s.conn.rbuf = []) : StdinInv sent (donios_sock n s) := by
  obtain ⟨hn, hpos, hl, hc, hflo, hs⟩ := hi
  unfold donios_sock
  split
  · next hcou =>
    have hcur : s.cur = [] := length_eq_zero_iff.mp (hl ▸ hcou)
    split
    · exact ⟨hn, hpos, hl, hc, hflo, hs⟩
    · next f frames hfra =>
      refine ⟨hn, hpos, rfl, ⟨hc.duped, fun hne => absurd hb hne, Or.inl rfl⟩, ?_, ?_⟩
      · intro chld hchld
        have hf := hflo chld hchld
        unfold Flows at hf ⊢
        rw [waiting_of_empty hb] at hf
        rw [waiting_of_empty]
        exacts [hf, hb]
      · intro rpid
        have := hs rpid
        simpa [hfra, hcur, addressed_cons] using this
  next hcou =>
    rw [if_neg (not_not.mpr hb)]
    dsimp only
    split
    · exact ⟨hn, hpos, hl, hc, hflo, hs⟩
    next hg =>
      have hsta : s.cur.take (min n (min s.conn.rcount BUFSIZ)) <+: s.cur := take_prefix ..
      generalize s.cur.take (min n (min s.conn.rcount BUFSIZ)) = got at hg hsta ⊢
      obtain ⟨after, ha⟩ := hsta
      have hdrop : s.cur.drop got.length = after := by simp [← ha]
      have hd := hc.duped hb
      have hfor : ∀ r ∈ s.children.map Child.rpid, s.conn.rtag = r ∨ s.conn.rtag = 0 ↔ IsFor s.curTag r := by
        intro r hr
        rcases hc.tag with ht | ⟨ht, ⟨-, hz⟩ | hnot⟩
        · rw [ht, IsFor]
          omega
        · exact absurd hz hcou
        · refine iff_of_false ?_ (hnot r hr)
          omega
      refine ⟨hn, hpos, ?_, ⟨fun he => absurd he hg, ?_, ?_⟩, ?_, ?_⟩
      · simp [hl]
      · intro _ _ hne
        obtain ⟨r, hr⟩ := exists_mem_of_ne_nil _ hne
        exact ⟨r, hr, by simp [hd]⟩
      · rcases hc.tag with ht | ⟨ht, ⟨-, hz⟩ | hnot⟩
        · exact Or.inl ht
        · exact absurd hz hcou
        · exact Or.inr ⟨ht, Or.inr hnot⟩
      · intro chld hchld
        have hf := hflo chld hchld
        have hi := hfor _ (mem_map_of_mem hchld)
        unfold Flows at hf ⊢
        rw [waiting_of_empty hb, append_nil] at hf
        rw [hf, addressed_append, addressed_cons]
        simp [waiting, Waits, hd, hi, addressed]
      · intro rpid
        rw [← hs rpid, addressed_append, addressed_cons, hdrop, ← ha]
        split <;> simp [addressed]

theorem dochild_stdio_keeps (rpid n : Nat) (hi : StdinInv sent s) : StdinInv sent (stdinStep (.write rpid n) s) := by
  obtain ⟨hn, hpos, hl, hc, hflo, hs⟩ := hi
  have hi : (s.children.map fun chld => if chld.rpid = rpid then dochild_stdio n chld else chld).map Child.rpid =
      s.children.map Child.rpid := by
    rw [map_map]
    refine map_congr_left fun chld _ => ?_
    simp only [Function.comp_apply]
    split <;> rfl
  refine ⟨?_, ?_, hl, ?_, ?_, hs⟩
  · simpa only [stdinStep, hi] using hn
  · simpa only [stdinStep, hi] using hpos
  · simpa only [stdinStep, hi] using hc
  · intro d hd
    obtain ⟨chld, hc, rfl⟩ := mem_map.mp hd
    have hf := hflo chld hc
    split
    · simpa [Flows, dochild_stdio, stdinStep] using hf
    · exact hf

theorem stdinStep_keeps (op : StdinOp) (s : Stdin) (hi : StdinInv sent s)
    (hok : StdinOk op s) : StdinInv sent (stdinStep op s) := by
  cases op with
  | nios n =>
    simp only [stdinStep]
    split
    · next hb => exact donios_sock_keeps n hi hb
    · exact hi
  | keep => exact houseKeeping_keeps hi hok
  | write rpid n => exact dochild_stdio_keeps rpid n hi

/-- The tasks have just been started and the NIOS sends these frames. -/
def stdinStart (rpids : List Nat) (sent : List StdinFrame) : Stdin where
  children := rpids.map fun rpid => ⟨rpid, [], []⟩
  conn := ⟨[], 0, -1, []⟩
  cur := []
  frames := sent
  curTag := 0
  taken := []

theorem stdinStart_inv (hn : rpids.Nodup) (hpos : ∀ r ∈ rpids, 0 < r) (sent : List StdinFrame) :
    StdinInv sent (stdinStart rpids sent) := by
  have hi : (stdinStart rpids sent).children.map Child.rpid = rpids := by
    simp [stdinStart, Function.comp_def]
  refine ⟨by rwa [hi], by rwa [hi], rfl, ?_, ?_, ?_⟩
  · exact ⟨fun _ => rfl, fun hne => absurd rfl hne, Or.inr ⟨rfl, Or.inl ⟨rfl, rfl⟩⟩⟩
  · intro chld hc
    obtain ⟨rpid, -, rfl⟩ := mem_map.mp hc
    rfl
  · intro rpid
    rfl

theorem written_in_order (hi : StdinInv sent s)
    (hc : chld ∈ s.children) : chld.written <+: addressed chld.rpid sent := by
  rw [← hi.stream, ← hi.flows chld hc]
  simp only [append_assoc]
  exact prefix_append ..

def Drained (s : Stdin) : Prop :=
  s.frames = [] ∧ s.cur = [] ∧ s.conn.rbuf = [] ∧ ∀ chld ∈ s.children, chld.i_buf = []

theorem written_complete (hi : StdinInv sent s) (hd : Drained s)
    (hc : chld ∈ s.children) : chld.written = addressed chld.rpid sent := by
  obtain ⟨hfra, hcur, hr, hb⟩ := hd
  have hf := hi.flows chld hc
  have hs := hi.stream chld.rpid
  rw [Flows, hb chld hc, waiting_of_empty hr, append_nil, append_nil] at hf
  rw [hfra, hcur, ite_self, ← hf] at hs
  simpa [addressed] using hs

/-- Every task gets what is for it, in order, if none comes up twice for one frame. -/
theorem stdin_in_order (rpids : List Nat) (hnodup : rpids.Nodup) (hpos : ∀ r ∈ rpids, 0 < r) (sent : List StdinFrame)
    (ops : List StdinOp) (hmeets : Run.Meets stdinStep StdinOk ops (stdinStart rpids sent)) :
    ∀ chld ∈ (Run.run stdinStep ops (stdinStart rpids sent)).children,
      chld.written <+: addressed chld.rpid sent ∧
        (Drained (Run.run stdinStep ops (stdinStart rpids sent)) → chld.written = addressed chld.rpid sent) := by
  have hi := Run.run_invariant stdinStep_keeps ops _ (stdinStart_inv hnodup hpos sent) hmeets
  exact fun chld hc => ⟨written_in_order hi hc, fun hd => written_complete hi hd hc⟩

def stdinBroadcast : List StdinOp :=
  [.nios 1, .nios 1, .keep, .write 1 1, .write 2 1, .nios 1, .keep, .write 2 1, .write 1 1]

theorem stdin_in_order_broadcast : Drained (Run.run stdinStep stdinBroadcast (stdinStart [1, 2] [⟨0, [5, 6]⟩])) ∧
      ∀ chld ∈ (Run.run stdinStep stdinBroadcast (stdinStart [1, 2] [⟨0, [5, 6]⟩])).children, chld.written = [5, 6] := by
  have hmee : Run.Meets stdinStep StdinOk stdinBroadcast (stdinStart [1, 2] [⟨0, [5, 6]⟩]) := by
    refine ⟨trivial, trivial, ?_, trivial, trivial, trivial, ?_, trivial, trivial, trivial⟩
    all_goals
      intro _ _ l chld r _ _ _ hr d hd
      exact absurd (hr d hd) not_mem_nil
  have hd : Drained (Run.run stdinStep stdinBroadcast (stdinStart [1, 2] [⟨0, [5, 6]⟩])) :=
    ⟨rfl, rfl, rfl, by decide⟩
  refine ⟨hd, fun chld hc => ?_⟩
  have ha := stdin_in_order [1, 2] (by decide) (by decide) [⟨0, [5, 6]⟩] _ hmee
  exact ((ha chld hc).2 hd).trans rfl

def stdinLost : List StdinOp :=
  [.nios 1, .nios 1, .keep, .nios 1, .nios 1, .keep, .write 2 1, .write 1 1, .keep, .nios 1, .write 1 1, .keep,
    .nios 1, .nios 1, .keep, .write 2 1]

/-- Task 2 copied the first byte of a frame for all before task 1, and misses the second. -/
theorem stdin_lost : (Run.run stdinStep stdinLost (stdinStart [1, 2] [⟨1, [9]⟩, ⟨0, [5, 6]⟩, ⟨2, [7]⟩])).children =
        [⟨1, [6], [9, 5]⟩, ⟨2, [], [5, 7]⟩] ∧
      ¬ [5, 7] <+: addressed 2 [⟨1, [9]⟩, ⟨0, [5, 6]⟩, ⟨2, [7]⟩] := by
  decide

end OpenLava.Res

import OpenLava.Mbd.JobLists
import OpenLava.Segments

/-!
# The order of the pending jobs

`btop` and `bbot` move a pending job to a position among the jobs of its queue.
-/

namespace OpenLava

open List

/-- `opCode` of a request to move a job. -/
inductive MoveCode where
  | TO_TOP | TO_BOTTOM
  deriving DecidableEq, Repr

/-- `struct jobMoveReq`, and whether its user is root, a manager or an administrator. -/
structure JobMoveReq where
  opCode : MoveCode
  position : Int
  privileged : Bool
  deriving DecidableEq, Repr

/-- `listInsertEntryBefore` for an entry, or for the head of the list. -/
def insertBefore (listno : ListNo) (succ : Option JobRef) (j : JobRef) (s : Mbd) : Mbd :=
  let entries := (s.lists listno).entries
  listInsertEntryBefore listno (match succ with | some succ => entries.idxOf succ | none => entries.length) j s

/-- `listInsertEntryAfter` for an entry, or for the head of the list. -/
def insertAfter (listno : ListNo) (pred : Option JobRef) (j : JobRef) (s : Mbd) : Mbd :=
  let entries := (s.lists listno).entries
  listInsertEntryBefore listno (match pred with | some pred => entries.idxOf pred + 1 | none => 0) j s

/-- The jobs that the loops of `moveAJob` count; `nowpos`: one has been counted. -/
def moveCandidates (C : Config) (s : Mbd) (job : JData) (privileged : Bool) : Bool → List JobRef → List JobRef
  | _, [] => []
  | nowpos, i :: rest =>
    let jp := s.jobs i
    if nowpos ∧ (s.queues jp.qPtr).priority ≠ (s.queues job.qPtr).priority then []
    else if jp.qPtr ≠ job.qPtr ∨ (0 < C.maxUserPriority ∧ jp.jobPriority ≠ job.jobPriority) ∨
        (¬ privileged ∧ jp.uPtr ≠ job.uPtr) then
      moveCandidates C s job privileged nowpos rest
    else i :: moveCandidates C s job privileged true rest

/-- The loop body of `insertAndShift`: the job met last moves next to the present one. -/
def shiftJob (listno : ListNo) (toJob : JobRef) (backward ordUser : Bool) (st : Mbd × JobRef) (jobP : JobRef) :
    Mbd × JobRef :=
  let (s, tmpJobP) := st
  if (s.jobs jobP).qPtr ≠ (s.jobs toJob).qPtr ∨ (ordUser ∧ (s.jobs jobP).uPtr ≠ (s.jobs toJob).uPtr) then st
  else
    let s := offJobList tmpJobP listno s
    (if backward then insertAfter listno (some jobP) tmpJobP s else insertBefore listno (some jobP) tmpJobP s, jobP)

def upTo (j : JobRef) : List JobRef → List JobRef
  | [] => []
  | i :: rest => if i = j then [i] else i :: upTo j rest

/-- The jobs met lie on the far side of the one that is moved. -/
def insertAndShift (froJob toJob : JobRef) (backward ordUser : Bool) (s : Mbd) : Mbd :=
  let listno := PJLorMJL froJob s
  let entries := (s.lists listno).entries
  if backward then
    let oldJobP := forwOf toJob entries
    let jobs := upTo froJob (entries.takeWhile (· ≠ toJob)).reverse
    let s := (jobs.foldl (shiftJob listno toJob true ordUser) (s, toJob)).1
    insertBefore listno oldJobP froJob (offJobList froJob listno s)
  else
    let oldJobP := backOf toJob entries
    let jobs := upTo froJob (entries.dropWhile (· ≠ toJob)).tail
    let s := (jobs.foldl (shiftJob listno toJob false ordUser) (s, toJob)).1
    insertAfter listno oldJobP froJob (offJobList froJob listno s)

/-- The job whose place is taken, and the direction of the shift. -/
def moveTarget (C : Config) (j : JobRef) (moveReq : JobMoveReq) (s : Mbd) : Option (JobRef × Bool) :=
  let entries := (s.lists (PJLorMJL j s)).entries
  let jobs := moveCandidates C s (s.jobs j) moveReq.privileged false
    (if moveReq.opCode = .TO_TOP then entries.reverse else entries)
  let moveJobNum : Int := if j ∈ jobs then jobs.idxOf j + 1 else 0
  let position := if moveReq.position > jobs.length then (jobs.length : Int) else moveReq.position
  if position ≠ moveJobNum ∧ j ∈ jobs ∧ 0 < position then
    jobs[(position - 1).toNat]?.map fun toJob =>
      (toJob, if moveReq.opCode = .TO_TOP then position < moveJobNum else position > moveJobNum)
  else none

/-- A job that is not pending is not moved. -/
def moveAJob (C : Config) (j : JobRef) (moveReq : JobMoveReq) (s : Mbd) : Mbd :=
  if ¬ (s.jobs j).jStatus.mask.isPend then s
  else
    match moveTarget C j moveReq s with
    | none => s
    | some (toJob, backward) => insertAndShift j toJob backward (!moveReq.privileged) s

section

/-- Only the lists and the ends that the queues know change. -/
def Relisted (s s' : Mbd) : Prop := ∃ lists ends, s' = { s with lists, ends }

theorem Relisted.refl (s : Mbd) : Relisted s s := ⟨s.lists, s.ends, rfl⟩

theorem Relisted.trans (h : Relisted s s') (h' : Relisted s' s'') : Relisted s s'' := by
  obtain ⟨_, _, rfl⟩ := h
  obtain ⟨lists, ends, rfl⟩ := h'
  exact ⟨lists, ends, rfl⟩

theorem offJobList_relisted (j : JobRef) (l : ListNo) (s : Mbd) : Relisted s (offJobList j l s) := ⟨_, _, rfl⟩

theorem insertBefore_relisted (l : ListNo) (i : Option JobRef) (j : JobRef) (s : Mbd) :
    Relisted s (insertBefore l i j s) := ⟨_, _, rfl⟩

theorem insertAfter_relisted (l : ListNo) (i : Option JobRef) (j : JobRef) (s : Mbd) :
    Relisted s (insertAfter l i j s) := ⟨_, _, rfl⟩

theorem shiftJob_relisted (l : ListNo) (toJob : JobRef) (backward ordUser : Bool) (st : Mbd × JobRef) (jobP : JobRef) :
    Relisted st.1 (shiftJob l toJob backward ordUser st jobP).1 := by
  unfold shiftJob
  dsimp only
  split
  · exact .refl _
  · cases backward with
    | true => exact (offJobList_relisted st.2 l st.1).trans (insertAfter_relisted l (some jobP) st.2 _)
    | false => exact (offJobList_relisted st.2 l st.1).trans (insertBefore_relisted l (some jobP) st.2 _)

theorem shiftJobs_relisted (l : ListNo) (toJob : JobRef) (backward ordUser : Bool) (jobs : List JobRef)
    (st : Mbd × JobRef) : Relisted st.1 (jobs.foldl (shiftJob l toJob backward ordUser) st).1 := by
  induction jobs generalizing st with
  | nil => exact .refl _
  | cons jobP jobs ih => exact (shiftJob_relisted l toJob backward ordUser st jobP).trans (ih _)

theorem insertAndShift_relisted (froJob toJob : JobRef) (backward ordUser : Bool) (s : Mbd) :
    Relisted s (insertAndShift froJob toJob backward ordUser s) := by
  unfold insertAndShift
  split
  · exact ((shiftJobs_relisted _ _ _ _ _ (s, toJob)).trans (offJobList_relisted _ _ _)).trans
      (insertBefore_relisted _ _ _ _)
  · exact ((shiftJobs_relisted _ _ _ _ _ (s, toJob)).trans (offJobList_relisted _ _ _)).trans
      (insertAfter_relisted _ _ _ _)

theorem moveAJob_relisted (C : Config) (j : JobRef) (moveReq : JobMoveReq) (s : Mbd) :
    Relisted s (moveAJob C j moveReq s) := by
  unfold moveAJob
  split
  · exact .refl s
  · split
    · exact .refl s
    · exact insertAndShift_relisted _ _ _ _ s

end

section

/-- Jobs of the block between `pre` and `post` take other places in it. -/
inductive Shifts (l : ListNo) (pre post : List JobRef) (s : Mbd) : List JobRef → Mbd → Prop where
  | refl {b : List JobRef} (h : (s.lists l).entries = pre ++ b ++ post) : Shifts l pre post s b s
  | move {b : List JobRef} {s' : Mbd} {j : JobRef} {k : Nat} (h : Shifts l pre post s b s') (hj : j ∈ b)
      (hk : k ≤ (b.erase j).length) : Shifts l pre post s ((b.erase j).insertIdx k j)
        (listInsertEntryBefore l (pre.length + k) j (offJobList j l s'))

variable {pre post b : List JobRef}

theorem offJobList_block (he : (s.lists l).entries = pre ++ b ++ post) (hnd : (s.lists l).entries.Nodup) (hj : j ∈ b) :
    ((offJobList j l s).lists l).entries = pre ++ b.erase j ++ post := by
  have hpre : j ∉ pre := fun hin => by
    rw [he, append_assoc, nodup_append] at hnd
    exact hnd.2.2 j hin j (by simp [hj]) rfl
  show (s.lists l).entries.erase j = _
  rw [he, append_assoc, erase_append_right _ hpre, erase_append_left _ hj, append_assoc]

theorem perm_insertIdx_erase (hj : j ∈ b) (hk : k ≤ (b.erase j).length) : ((b.erase j).insertIdx k j).Perm b :=
  (perm_insertIdx j _ hk).trans (perm_cons_erase hj).symm

theorem Shifts.entries (h : Shifts l pre post s b s') (hnd : (s.lists l).entries.Nodup) :
    (s'.lists l).entries = pre ++ b ++ post ∧ (s'.lists l).entries.Perm (s.lists l).entries := by
  induction h with
  | refl h => exact ⟨h, .refl _⟩
  | @move b s' j k _ hj hk ih =>
    obtain ⟨he, hperm⟩ := ih
    have ho := offJobList_block he (hperm.nodup_iff.mpr hnd) hj
    have hi : ((listInsertEntryBefore l (pre.length + k) j (offJobList j l s')).lists l).entries =
        pre ++ (b.erase j).insertIdx k j ++ post := by
      simp only [listInsertEntryBefore, Function.update_self]
      rw [ho, append_assoc, Segments.insertIdx_append, Segments.insertIdx_append_left hk, append_assoc]
    refine ⟨hi, ?_⟩
    rw [hi]
    rw [he] at hperm
    exact (((perm_insertIdx_erase hj hk).append_left pre).append_right post).trans hperm

theorem Shifts.other (h : Shifts l pre post s b s') (hnd : (s.lists l).entries.Nodup) (hl : l' ≠ l)
    (hd : ∀ i ∈ (s.lists l).entries, i ∉ (s.lists l').entries) : (s'.lists l').entries = (s.lists l').entries := by
  induction h with
  | refl => rfl
  | @move b s' j k h hj hk ih =>
    obtain ⟨he, hperm⟩ := h.entries hnd
    have hj' : j ∈ (s.lists l).entries := hperm.mem_iff.mp (by rw [he]; simp [hj])
    simp only [listInsertEntryBefore, Function.update_of_ne hl]
    show (s'.lists l').entries.erase j = _
    rw [ih, erase_of_not_mem (hd j hj')]

theorem Shifts.relisted (h : Shifts l pre post s b s') : Relisted s s' := by
  induction h with
  | refl => exact .refl s
  | @move b s' j k _ _ _ ih => exact (ih.trans (offJobList_relisted j l s')).trans ⟨_, _, rfl⟩

theorem idxOf_block (hpre : i ∉ pre) (hi : i ∈ b) : (pre ++ b ++ post).idxOf i = pre.length + b.idxOf i := by
  rw [append_assoc, idxOf_append_of_notMem hpre, idxOf_append_of_mem hi]

theorem Shifts.shiftJob (h : Shifts l pre post s0 b s) (hnd : (s0.lists l).entries.Nodup)
    (ht : tmp ∈ b) (hj : jobP ∈ b) (hne : jobP ≠ tmp) (toJob : JobRef) (backward ordUser : Bool) :
    ∃ b', b'.Perm b ∧ Shifts l pre post s0 b' (shiftJob l toJob backward ordUser (s, tmp) jobP).1 := by
  obtain ⟨he, hperm⟩ := h.entries hnd
  have hnd' := hperm.nodup_iff.mpr hnd
  have ho := offJobList_block he hnd' ht
  have hmem : jobP ∈ b.erase tmp := (mem_erase_of_ne hne).mpr hj
  have hpre : jobP ∉ pre := fun hin => by
    rw [he, append_assoc, nodup_append] at hnd'
    exact hnd'.2.2 jobP hin jobP (by simp [hj]) rfl
  have hi : ((OpenLava.offJobList tmp l s).lists l).entries.idxOf jobP = pre.length + (b.erase tmp).idxOf jobP := by
    rw [ho, idxOf_block hpre hmem]
  unfold OpenLava.shiftJob
  dsimp only
  split
  · exact ⟨b, .refl b, h⟩
  · cases backward with
    | true =>
      have hk : (b.erase tmp).idxOf jobP + 1 ≤ (b.erase tmp).length := idxOf_lt_length_iff.mpr hmem
      refine ⟨_, perm_insertIdx_erase ht hk, ?_⟩
      simp only [if_true, insertAfter, hi, Nat.add_assoc]
      exact h.move ht hk
    | false =>
      have hk : (b.erase tmp).idxOf jobP ≤ (b.erase tmp).length := idxOf_le_length
      refine ⟨_, perm_insertIdx_erase ht hk, ?_⟩
      simp only [Bool.false_eq_true, if_false, insertBefore, hi]
      exact h.move ht hk

theorem shiftJob_snd (toJob tmp jobP : JobRef) (backward ordUser : Bool) :
    (shiftJob l toJob backward ordUser (s, tmp) jobP).2 = tmp ∨ (shiftJob l toJob backward ordUser (s, tmp) jobP).2 = jobP := by
  unfold shiftJob
  dsimp only
  split
  · exact .inl rfl
  · exact .inr rfl

theorem Shifts.shiftJobs (hnd : (s0.lists l).entries.Nodup) (toJob : JobRef) (backward ordUser : Bool)
    (jobs : List JobRef) (s : Mbd) (tmp : JobRef) (b : List JobRef) (h : Shifts l pre post s0 b s) (ht : tmp ∈ b)
    (hjobs : ∀ i ∈ jobs, i ∈ b) (hj : (tmp :: jobs).Nodup) :
    ∃ b', b'.Perm b ∧ Shifts l pre post s0 b' (jobs.foldl (OpenLava.shiftJob l toJob backward ordUser) (s, tmp)).1 := by
  induction jobs generalizing s tmp b with
  | nil => exact ⟨b, .refl b, h⟩
  | cons jobP jobs ih =>
    have hjob : jobP ∈ b := hjobs jobP (by simp)
    have hne : jobP ≠ tmp := fun heq => by simp [heq] at hj
    obtain ⟨b1, hperm1, h1⟩ := h.shiftJob hnd ht hjob hne toJob backward ordUser
    have hs := shiftJob_snd (l := l) (s := s) toJob tmp jobP backward ordUser
    set st1 := OpenLava.shiftJob l toJob backward ordUser (s, tmp) jobP
    have hmem : st1.2 ∈ b := by
      rcases hs with hs | hs <;> rw [hs]
      · exact ht
      · exact hjob
    have hj1 : (st1.2 :: jobs).Nodup := by
      rw [nodup_cons, nodup_cons] at hj
      rcases hs with hs | hs <;> rw [hs, nodup_cons]
      · exact ⟨fun hin => hj.1 (by simp [hin]), hj.2.2⟩
      · exact hj.2
    obtain ⟨b2, hperm2, h2⟩ := ih st1.1 st1.2 b1 h1 (hperm1.mem_iff.mpr hmem)
      (fun i hi => hperm1.mem_iff.mpr (hjobs i (by simp [hi]))) hj1
    exact ⟨b2, hperm2.trans hperm1, h2⟩

theorem upTo_split (h : j ∉ l1) : upTo j (l1 ++ j :: l2) = l1 ++ [j] := by
  induction l1 with
  | nil => simp [upTo]
  | cons i l1 ih =>
    rw [mem_cons, not_or] at h
    simp [upTo, Ne.symm h.1, ih h.2]

theorem notMem_before (h : (l1 ++ j :: l2).Nodup) : j ∉ l1 := fun hin =>
  (nodup_append.mp h).2.2 j hin j (by simp) rfl

theorem forwOf_split (h : j ∉ l1) : forwOf j (l1 ++ j :: l2) = l2.head? := by
  rw [forwOf, Segments.dropWhile_ne h, tail_cons]

theorem backOf_split (h : j ∉ l1) : backOf j (l1 ++ j :: l2) = l1.getLast? := by
  rw [backOf, Segments.takeWhile_ne h]

theorem insertBefore_head (he : (s.lists l).entries = a ++ post) (hnd : (s.lists l).entries.Nodup) :
    insertBefore l post.head? j s = listInsertEntryBefore l a.length j s := by
  rw [he] at hnd
  unfold insertBefore
  cases post with
  | nil => simp [he]
  | cons o post => simp [he, idxOf_append_of_notMem (notMem_before hnd)]

theorem insertAfter_last (he : (s.lists l).entries = pre ++ a) (hnd : (s.lists l).entries.Nodup) :
    insertAfter l pre.getLast? j s = listInsertEntryBefore l pre.length j s := by
  rw [he] at hnd
  unfold insertAfter
  rcases eq_nil_or_concat pre with rfl | ⟨pre, o, rfl⟩
  · rfl
  · rw [concat_eq_append] at he hnd ⊢
    rw [append_assoc, singleton_append] at hnd
    simp [he, idxOf_append_of_notMem (notMem_before hnd)]

theorem Shifts.insertLast (h : Shifts l pre post s0 b s) (hnd : (s0.lists l).entries.Nodup) (hj : j ∈ b) :
    Shifts l pre post s0 ((b.erase j).insertIdx (b.erase j).length j) (insertBefore l post.head? j (offJobList j l s)) := by
  obtain ⟨he, hperm⟩ := h.entries hnd
  have hnd' := hperm.nodup_iff.mpr hnd
  rw [insertBefore_head (offJobList_block he hnd' hj) (hnd'.erase j), length_append]
  exact h.move hj le_rfl

theorem Shifts.insertFirst (h : Shifts l pre post s0 b s) (hnd : (s0.lists l).entries.Nodup) (hj : j ∈ b) :
    Shifts l pre post s0 ((b.erase j).insertIdx 0 j) (insertAfter l pre.getLast? j (offJobList j l s)) := by
  obtain ⟨he, hperm⟩ := h.entries hnd
  have hnd' := hperm.nodup_iff.mpr hnd
  have ho := offJobList_block he hnd' hj
  rw [append_assoc] at ho
  rw [insertAfter_last ho (hnd'.erase j)]
  exact h.move hj (Nat.zero_le _)

theorem block_back {entries : List JobRef} (he : entries = pre ++ (src :: mid ++ [dest]) ++ post)
    (hnd : entries.Nodup) : upTo src (entries.takeWhile (· ≠ dest)).reverse = mid.reverse ++ [src] ∧
      forwOf dest entries = post.head? := by
  obtain rfl : entries = (pre ++ src :: mid) ++ dest :: post := by simp [he]
  have hs : src ∉ mid.reverse := by
    simp only [nodup_append, nodup_cons] at hnd
    simpa using hnd.1.2.1.1
  rw [forwOf_split (notMem_before hnd), Segments.takeWhile_ne (notMem_before hnd), reverse_append, reverse_cons,
    append_assoc, singleton_append, upTo_split hs]
  exact ⟨rfl, rfl⟩

theorem block_forw {entries : List JobRef} (he : entries = pre ++ (dest :: mid ++ [src]) ++ post)
    (hnd : entries.Nodup) : (dest :: (mid ++ [src])).Nodup ∧ upTo src (entries.dropWhile (· ≠ dest)).tail = mid ++ [src] ∧
      backOf dest entries = pre.getLast? := by
  obtain rfl : entries = pre ++ dest :: (mid ++ src :: post) := by simp [he]
  have hb : (dest :: (mid ++ [src])).Nodup := by
    rw [he, append_assoc] at hnd
    simpa using (nodup_append.mp (nodup_append.mp hnd).2.1).1
  rw [backOf_split (notMem_before hnd), Segments.dropWhile_ne (notMem_before hnd), tail_cons,
    upTo_split (notMem_before (nodup_cons.mp hb).2)]
  exact ⟨hb, rfl, rfl⟩

theorem insertAndShift_back (he : (s.lists (PJLorMJL src s)).entries = pre ++ (src :: mid ++ [dest]) ++ post)
    (hnd : (s.lists (PJLorMJL src s)).entries.Nodup) (ordUser : Bool) :
    ∃ b, b.Perm (src :: mid ++ [dest]) ∧ Shifts (PJLorMJL src s) pre post s b (insertAndShift src dest true ordUser s) := by
  obtain ⟨hj, hf⟩ := block_back he hnd
  unfold insertAndShift
  rw [if_pos rfl, hj, hf]
  have hj : (dest :: (mid.reverse ++ [src])).Nodup := by
    have hb : (src :: mid ++ [dest]).Nodup := by
      rw [he, append_assoc] at hnd
      exact (nodup_append.mp (nodup_append.mp hnd).2.1).1
    simpa using nodup_reverse.mpr hb
  obtain ⟨b, hperm, hb⟩ := Shifts.shiftJobs hnd dest true ordUser (mid.reverse ++ [src]) s dest _ (.refl he) (by simp)
    (fun i hi => by simp at hi ⊢; tauto) hj
  have hj : src ∈ b := hperm.mem_iff.mpr (by simp)
  exact ⟨_, (perm_insertIdx_erase hj le_rfl).trans hperm, hb.insertLast hnd hj⟩

theorem insertAndShift_forw (he : (s.lists (PJLorMJL src s)).entries = pre ++ (dest :: mid ++ [src]) ++ post)
    (hnd : (s.lists (PJLorMJL src s)).entries.Nodup) (ordUser : Bool) :
    ∃ b, b.Perm (dest :: mid ++ [src]) ∧ Shifts (PJLorMJL src s) pre post s b (insertAndShift src dest false ordUser s) := by
  obtain ⟨hblo, hj, hb⟩ := block_forw he hnd
  unfold insertAndShift
  rw [if_neg (by simp), hj, hb]
  obtain ⟨b, hperm, hb⟩ := Shifts.shiftJobs hnd dest false ordUser (mid ++ [src]) s dest _ (.refl he) (by simp)
    (fun i hi => by simp at hi ⊢; tauto) hblo
  have hj : src ∈ b := hperm.mem_iff.mpr (by simp)
  exact ⟨_, (perm_insertIdx_erase hj (Nat.zero_le _)).trans hperm, hb.insertFirst hnd hj⟩

theorem moveCandidates_sublist (C : Config) (s : Mbd) (job : JData) (privileged nowpos : Bool) (jobs : List JobRef) :
    (moveCandidates C s job privileged nowpos jobs).Sublist jobs := by
  induction jobs generalizing nowpos with
  | nil => exact .slnil
  | cons i jobs ih =>
    unfold moveCandidates
    dsimp only
    split
    · exact nil_sublist _
    · split
      · exact (ih nowpos).cons i
      · exact (ih true).cons_cons i

theorem moveCandidates_queue (C : Config) (s : Mbd) (job : JData) (privileged nowpos : Bool) (jobs : List JobRef) :
    ∀ i ∈ moveCandidates C s job privileged nowpos jobs, (s.jobs i).qPtr = job.qPtr := by
  induction jobs generalizing nowpos with
  | nil => simp [moveCandidates]
  | cons j jobs ih =>
    unfold moveCandidates
    dsimp only
    split
    · simp
    · split
      · exact ih nowpos
      · rename_i _ hc
        rw [not_or, not_not] at hc
        exact forall_mem_cons.mpr ⟨hc.1, ih true⟩

/-- The target of a move is another job of the same queue, on the side of the direction. -/
theorem moveTarget_spec (h : moveTarget C j moveReq s = some (dest, backward)) : (s.jobs dest).qPtr = (s.jobs j).qPtr ∧
    (if backward then [j, dest] else [dest, j]).Sublist (s.lists (PJLorMJL j s)).entries := by
  unfold moveTarget at h
  dsimp only at h
  set jobs := moveCandidates C s (s.jobs j) moveReq.privileged false
    (if moveReq.opCode = .TO_TOP then (s.lists (PJLorMJL j s)).entries.reverse else (s.lists (PJLorMJL j s)).entries)
    with hjobs
  set position := if moveReq.position > jobs.length then (jobs.length : Int) else moveReq.position
  by_cases hmov : position ≠ (if j ∈ jobs then (jobs.idxOf j : Int) + 1 else 0) ∧ j ∈ jobs ∧ 0 < position
  · rw [if_pos hmov] at h
    obtain ⟨hne, hj, hpos⟩ := hmov
    obtain ⟨dest', hd, heq⟩ := Option.map_eq_some_iff.mp h
    obtain ⟨rfl, hb⟩ := Prod.mk.inj heq
    have hs := moveCandidates_sublist C s (s.jobs j) moveReq.privileged false
      (if moveReq.opCode = .TO_TOP then (s.lists (PJLorMJL j s)).entries.reverse else (s.lists (PJLorMJL j s)).entries)
    rw [← hjobs] at hs
    refine ⟨moveCandidates_queue C s (s.jobs j) moveReq.privileged false _ dest' (mem_of_getElem? hd), ?_⟩
    rw [if_pos hj] at hne hb
    have hself : jobs[jobs.idxOf j]? = some j := by
      rw [List.getElem?_eq_getElem (idxOf_lt_length_iff.mpr hj), getElem_idxOf]
    -- the one that is met first comes first among the candidates
    have hlt : position < jobs.idxOf j + 1 → [dest', j].Sublist jobs := fun hlt =>
      Segments.pair_sublist hd hself (by omega)
    have hgt : position > jobs.idxOf j + 1 → [j, dest'].Sublist jobs := fun hgt =>
      Segments.pair_sublist hself hd (by omega)
    cases hcode : moveReq.opCode with
    | TO_TOP =>
      simp only [hcode, if_true] at hb hs
      rcases lt_or_gt_of_ne hne with hp | hp
      · rw [← hb, if_pos (by simpa using hp)]
        simpa using reverse_sublist.mpr ((hlt hp).trans hs)
      · rw [← hb, if_neg (by simpa using le_of_lt hp)]
        simpa using reverse_sublist.mpr ((hgt hp).trans hs)
    | TO_BOTTOM =>
      simp only [hcode, reduceCtorEq, if_false] at hb hs
      rcases lt_or_gt_of_ne hne with hp | hp
      · rw [← hb, if_neg (by simpa using le_of_lt hp)]
        exact (hlt hp).trans hs
      · rw [← hb, if_pos (by simpa using hp)]
        exact (hgt hp).trans hs
  · rw [if_neg hmov] at h
    cases h

/-- A move rearranges one block of the list, with jobs of the queue at its ends. -/
theorem moveAJob_shifts (C : Config) (moveReq : JobMoveReq) (hnd : (s.lists (PJLorMJL j s)).entries.Nodup) :
    ∃ pre b0 b post, (s.lists (PJLorMJL j s)).entries = pre ++ b0 ++ post ∧ b.Perm b0 ∧
      Shifts (PJLorMJL j s) pre post s b (moveAJob C j moveReq s) ∧
      ∀ i, i ∈ b0.head? ∨ i ∈ b0.getLast? → (s.jobs i).qPtr = (s.jobs j).qPtr := by
  unfold moveAJob
  split
  · exact ⟨_, [], [], [], by simp; rfl, .refl _, .refl (by simp), by simp⟩
  · split
    · exact ⟨_, [], [], [], by simp; rfl, .refl _, .refl (by simp), by simp⟩
    · rename_i dest backward ht
      obtain ⟨hq, hs⟩ := moveTarget_spec ht
      cases backward with
      | true =>
        obtain ⟨pre, mid, post, he⟩ := Segments.pair_split hs
        have he' : (s.lists (PJLorMJL j s)).entries = pre ++ (j :: mid ++ [dest]) ++ post := by simpa using he
        obtain ⟨b, hperm, hb⟩ := insertAndShift_back he' hnd (!moveReq.privileged)
        refine ⟨pre, _, b, post, he', hperm, hb, fun i hi => ?_⟩
        rw [List.getLast?_concat] at hi
        rcases hi with hi | hi
        · obtain rfl : j = i := by simpa using hi
          rfl
        · obtain rfl : dest = i := by simpa using hi
          exact hq
      | false =>
        obtain ⟨pre, mid, post, he⟩ := Segments.pair_split hs
        have he' : (s.lists (PJLorMJL j s)).entries = pre ++ (dest :: mid ++ [j]) ++ post := by simpa using he
        obtain ⟨b, hperm, hb⟩ := insertAndShift_forw he' hnd (!moveReq.privileged)
        refine ⟨pre, _, b, post, he', hperm, hb, fun i hi => ?_⟩
        rw [List.getLast?_concat] at hi
        rcases hi with hi | hi
        · obtain rfl : dest = i := by simpa using hi
          exact hq
        · obtain rfl : j = i := by simpa using hi
          rfl

end

/-- From the ends the queue has. -/
def setQueueFirstAndLastJob (s : Mbd) (q : QRef) (listNo : ListNo) (qp : JobEnds) : JobEnds :=
  let entries := (s.lists listNo).entries
  let prio := fun j => (s.queues (s.jobs j).qPtr).priority
  let jobs := entries.reverse
  let firstJob := ((jobs.takeWhile fun jp => (s.queues q).priority ≤ prio jp).find? fun jp =>
    prio jp = (s.queues q).priority).or qp.firstJob
  match firstJob with
  | none => qp
  | some first =>
    let lastJob :=
      match (jobs.dropWhile (· ≠ first)).tail.find? fun jp => prio jp < (s.queues q).priority with
      | some jp => forwOf jp entries
      | none => entries.head?
    { firstJob := some first, lastJob }

/-- The ends of all queues, from the lists as the replay has left them. -/
def schedulerInit (s : Mbd) : Mbd :=
  { s with ends := fun l q => if l = .FJL then s.ends l q else setQueueFirstAndLastJob s q l (s.ends l q) }

end OpenLava

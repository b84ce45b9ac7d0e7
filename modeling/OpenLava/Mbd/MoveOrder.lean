import OpenLava.Mbd.JobOrder
import OpenLava.Rotation

/-!
# Where a move puts the jobs

`moveAJob` counts positions among the jobs of one class: the queue, with user priorities also the priority, and for an
ordinary user also the user. `insertAndShift` does not look at the priorities.
-/

namespace OpenLava

open Function List Rotation

section

variable {C : Config} {j : JobRef} {moveReq : JobMoveReq} {s : Mbd}

/-- The jobs that the loops of `moveAJob` count, in their order. -/
def counted (C : Config) (j : JobRef) (moveReq : JobMoveReq) (s : Mbd) : List JobRef :=
  let entries := (s.lists (PJLorMJL j s)).entries
  moveCandidates C s (s.jobs j) moveReq.privileged false (if moveReq.opCode = .TO_TOP then entries.reverse else entries)

/-- `moveAJob` with its reply: for a position that is too large it calls itself with the last one. -/
def moveAJobCalls (C : Config) (j : JobRef) : Nat → JobMoveReq → Mbd → Option (Lsbe × Mbd)
  | 0, _, _ => none
  | n + 1, moveReq, s =>
    let mask := (s.jobs j).jStatus.mask
    if ¬ mask.isPend then some (if mask.isFinish then .JOB_FINISH else .JOB_STARTED, s)
    else
      let jobs := counted C j moveReq s
      let nowpos : Int := jobs.length
      let moveJobNum : Int := if j ∈ jobs then jobs.idxOf j + 1 else 0
      let toJob := if 0 < moveReq.position then jobs[(moveReq.position - 1).toNat]? else none
      if moveReq.position > nowpos then moveAJobCalls C j n { moveReq with position := nowpos } s
      else if moveReq.position ≠ moveJobNum then
        if j ∉ jobs then some (.MBATCHD, s)
        else
          match toJob with
          | none => some (.MBATCHD, s)
          | some toJob =>
            let backword := if moveReq.opCode = .TO_TOP then moveReq.position < moveJobNum else moveReq.position > moveJobNum
            some (.NO_ERROR, insertAndShift j toJob backword (!moveReq.privileged) s)
      else some (.NO_ERROR, s)

def askedIndex (moveReq : JobMoveReq) (n : Nat) : Nat := (min moveReq.position n - 1).toNat

theorem moveTarget_counted (C : Config) (j : JobRef) (moveReq : JobMoveReq) (s : Mbd) : moveTarget C j moveReq s =
    let jobs := counted C j moveReq s
    let moveJobNum : Int := if j ∈ jobs then jobs.idxOf j + 1 else 0
    let position := min moveReq.position jobs.length
    if position ≠ moveJobNum ∧ j ∈ jobs ∧ 0 < position then
      jobs[(position - 1).toNat]?.map fun toJob =>
        (toJob, if moveReq.opCode = .TO_TOP then decide (position < moveJobNum) else decide (position > moveJobNum))
    else none := by
  have hmin : ∀ n : Int, (if moveReq.position > n then n else moveReq.position) = min moveReq.position n := fun n => by
    split_ifs <;> omega
  unfold moveTarget counted
  simp only [hmin]

theorem moveAJob_clipped (n : Int) (hn : n = (counted C j moveReq s).length) (hpos : n < moveReq.position) :
    moveAJob C j { moveReq with position := n } s = moveAJob C j moveReq s := by
  subst hn
  have hc : counted C j { moveReq with position := ((counted C j moveReq s).length : Int) } s =
      counted C j moveReq s := rfl
  unfold moveAJob
  simp only [moveTarget_counted, hc, min_self, min_eq_right hpos.le]

theorem moveAJobCalls_once (n : Nat) (hpos : moveReq.position ≤ (counted C j moveReq s).length) :
    (moveAJobCalls C j (n + 1) moveReq s).map Prod.snd = some (moveAJob C j moveReq s) := by
  unfold moveAJobCalls moveAJob
  simp only [moveTarget_counted, min_eq_left hpos, gt_iff_lt, not_lt.mpr hpos, if_false]
  by_cases hpend : (s.jobs j).jStatus.mask.isPend
  · simp only [hpend, not_true_eq_false, if_false]
    by_cases hj : j ∈ counted C j moveReq s
    · simp only [hj, if_true, not_true_eq_false, if_false, true_and]
      by_cases hs : moveReq.position = (counted C j moveReq s).idxOf j + 1
      · simp [hs]
      · by_cases hpos' : 0 < moveReq.position
        · simp only [hs, hpos', ne_eq, not_false_eq_true, true_and, if_true]
          cases (counted C j moveReq s)[(moveReq.position - 1).toNat]? with
          | none => rfl
          | some toJob => cases moveReq.opCode <;> rfl
        · simp [hs, hpos']
    · by_cases hs : moveReq.position = 0 <;> simp [hj, hs]
  · simp [hpend]

theorem moveAJobCalls_twice (C : Config) (j : JobRef) (moveReq : JobMoveReq) (s : Mbd) :
    (moveAJobCalls C j 2 moveReq s).map Prod.snd = some (moveAJob C j moveReq s) := by
  rcases le_or_gt moveReq.position (counted C j moveReq s).length with hpos | hpos
  · exact moveAJobCalls_once 1 hpos
  · have ha : (moveAJobCalls C j 2 moveReq s).map Prod.snd =
        (moveAJobCalls C j 1 { moveReq with position := (counted C j moveReq s).length } s).map Prod.snd := by
      rw [moveAJobCalls]
      rw [if_pos hpos]
      by_cases hpend : (s.jobs j).jStatus.mask.isPend
      · rw [if_neg (not_not.mpr hpend)]
      · simp [moveAJobCalls, hpend]
    rw [ha, moveAJobCalls_once 0 (show ((counted C j moveReq s).length : Int) ≤ _ from le_rfl)]
    exact congrArg some (moveAJob_clipped _ rfl hpos)

end

section

variable {s s' : Mbd} {ordUser : Bool} {post : List JobRef}

/-- The jobs that `insertAndShift` moves. -/
def shifted (s : Mbd) (toJob : JobRef) (ordUser : Bool) (i : JobRef) : Bool :=
  (s.jobs i).qPtr = (s.jobs toJob).qPtr ∧ (ordUser → (s.jobs i).uPtr = (s.jobs toJob).uPtr)

theorem Relisted.shifted (h : Relisted s s') (toJob : JobRef) (ordUser : Bool) :
    OpenLava.shifted s' toJob ordUser = OpenLava.shifted s toJob ordUser := by
  obtain ⟨_, _, rfl⟩ := h
  rfl

theorem shiftJob_entries (l : ListNo) (toJob : JobRef) (backward ordUser : Bool) (s : Mbd) (t b : JobRef) :
    (((shiftJob l toJob backward ordUser (s, t) b).1.lists l).entries, (shiftJob l toJob backward ordUser (s, t) b).2) =
      shiftEntry (shifted s toJob ordUser) backward ((s.lists l).entries, t) b := by
  have hi : ∀ succ, ((listInsertEntryBefore l succ t (offJobList t l s)).lists l).entries =
      ((s.lists l).entries.erase t).insertIdx succ t := fun succ => by
    simp only [listInsertEntryBefore, update_self]
    rfl
  unfold shiftJob
  dsimp only
  by_cases hb : shifted s toJob ordUser b
  · have hq : ¬ ((s.jobs b).qPtr ≠ (s.jobs toJob).qPtr ∨ ordUser ∧ (s.jobs b).uPtr ≠ (s.jobs toJob).uPtr) := by
      rw [shifted, decide_eq_true_eq] at hb
      tauto
    rw [if_neg hq, shiftEntry, if_pos hb]
    cases backward
    · exact Prod.ext (hi _) rfl
    · exact Prod.ext (hi _) rfl
  · have hq : (s.jobs b).qPtr ≠ (s.jobs toJob).qPtr ∨ ordUser ∧ (s.jobs b).uPtr ≠ (s.jobs toJob).uPtr := by
      rw [shifted, decide_eq_true_eq] at hb
      tauto
    rw [if_pos hq, shiftEntry, if_neg hb]

theorem shiftJobs_entries (l : ListNo) (toJob : JobRef) (backward ordUser : Bool) (jobs : List JobRef) (s : Mbd) (t : JobRef) :
    ((jobs.foldl (shiftJob l toJob backward ordUser) (s, t)).1.lists l).entries =
      (jobs.foldl (shiftEntry (shifted s toJob ordUser) backward) ((s.lists l).entries, t)).1 := by
  induction jobs generalizing s t with
  | nil => rfl
  | cons b jobs ih =>
    have hstep := shiftJob_entries l toJob backward ordUser s t b
    have hs := (shiftJob_relisted l toJob backward ordUser (s, t) b).shifted toJob ordUser
    rw [foldl_cons, foldl_cons, ← hstep, ← hs]
    exact ih _ _

theorem shifted_self (s : Mbd) (j : JobRef) (ordUser : Bool) : shifted s j ordUser j := by simp [shifted]

theorem relink_last (he : (s.lists l).entries = pre ++ src :: (r ++ post)) (hnd : (s.lists l).entries.Nodup) :
    ((insertBefore l post.head? src (offJobList src l s)).lists l).entries = pre ++ (r ++ [src]) ++ post := by
  have ho : ((offJobList src l s).lists l).entries = (pre ++ r) ++ post := by
    show (s.lists l).entries.erase src = _
    rw [he] at hnd ⊢
    rw [Segments.erase_split (notMem_before hnd), append_assoc]
  rw [insertBefore_head ho (hnd.erase src)]
  simp only [listInsertEntryBefore, update_self, ho]
  rw [← Nat.add_zero (pre ++ r).length, Segments.insertIdx_append, insertIdx_zero]
  simp

theorem relink_first (he : (s.lists l).entries = pre ++ r ++ src :: post) (hnd : (s.lists l).entries.Nodup) :
    ((insertAfter l pre.getLast? src (offJobList src l s)).lists l).entries = pre ++ (src :: r) ++ post := by
  have ho : ((offJobList src l s).lists l).entries = pre ++ (r ++ post) := by
    show (s.lists l).entries.erase src = _
    rw [he] at hnd ⊢
    rw [Segments.erase_split (notMem_before hnd), append_assoc]
  rw [insertAfter_last ho (hnd.erase src)]
  simp only [listInsertEntryBefore, update_self, ho]
  rw [← Nat.add_zero pre.length, Segments.insertIdx_append, insertIdx_zero]
  simp

theorem insertAndShift_rotated_back (he : (s.lists (PJLorMJL src s)).entries = pre ++ (src :: mid ++ [dest]) ++ post)
    (hnd : (s.lists (PJLorMJL src s)).entries.Nodup) (hs : shifted s dest ordUser src) :
    ∃ f, ((insertAndShift src dest true ordUser s).lists (PJLorMJL src s)).entries = pre ++ f ++ post ∧
      Rotated (shifted s dest ordUser) src (src :: mid ++ [dest]) f := by
  obtain ⟨hj, hforw⟩ := block_back he hnd
  obtain ⟨r, hf, hperm, hr⟩ := shiftEntries_rotated hs (shifted_self s dest ordUser) (he ▸ hnd)
  have hl := shiftJobs_entries (PJLorMJL src s) dest true ordUser (mid.reverse ++ [src]) s dest
  rw [he, hf] at hl
  have hnd2 : (pre ++ src :: (r ++ post)).Nodup := by
    have ha := (hperm.append_right post).append_left pre
    rw [he, append_assoc] at hnd
    simpa using ha.nodup_iff.mpr hnd
  refine ⟨r ++ [src], ?_, hr⟩
  unfold insertAndShift
  rw [if_pos rfl, hj, hforw]
  exact relink_last hl (hl ▸ hnd2)

theorem insertAndShift_rotated_forw (he : (s.lists (PJLorMJL src s)).entries = pre ++ (dest :: mid ++ [src]) ++ post)
    (hnd : (s.lists (PJLorMJL src s)).entries.Nodup) (hs : shifted s dest ordUser src) :
    ∃ f, ((insertAndShift src dest false ordUser s).lists (PJLorMJL src s)).entries = pre ++ f.reverse ++ post ∧
      Rotated (shifted s dest ordUser) src (src :: mid.reverse ++ [dest]) f := by
  obtain ⟨hblo, hj, hback⟩ := block_forw he hnd
  have hr : (s.lists (PJLorMJL src s)).entries.reverse = post.reverse ++ (src :: mid.reverse ++ [dest]) ++ pre.reverse := by
    simp [he]
  obtain ⟨r, hf, hperm, hrot⟩ := shiftEntries_rotated hs (shifted_self s dest ordUser)
    (hr ▸ nodup_reverse.mpr hnd)
  have hl := shiftJobs_entries (PJLorMJL src s) dest false ordUser (mid ++ [src]) s dest
  rw [reverse_reverse] at hf
  rw [shiftEntries_reverse _ hnd (by simp [he]) (fun b hb => by rw [he]; simp at hb ⊢; tauto) hblo, hr, hf] at hl
  have hlist : (post.reverse ++ src :: (r ++ pre.reverse)).reverse = pre ++ r.reverse ++ src :: post := by simp
  rw [hlist] at hl
  have hnd2 : (pre ++ r.reverse ++ src :: post).Nodup := by
    have ha := (hperm.append_right pre.reverse).append_left post.reverse
    rw [← append_assoc post.reverse (_ ++ [dest]), ← hr] at ha
    rw [← hlist, nodup_reverse]
    simpa using ha.nodup_iff.mpr (nodup_reverse.mpr hnd)
  refine ⟨r ++ [src], ?_, hrot⟩
  unfold insertAndShift
  rw [if_neg (by decide), hj, hback, reverse_append]
  exact relink_first hl (hl ▸ hnd2)

end

section

variable {C : Config} {j i : JobRef} {moveReq : JobMoveReq} {s s' : Mbd}

/-- The class in which the position of a moved job is counted. -/
def inClass (C : Config) (s : Mbd) (j : JobRef) (privileged : Bool) (i : JobRef) : Bool :=
  (s.jobs i).qPtr = (s.jobs j).qPtr ∧ (0 < C.maxUserPriority → (s.jobs i).jobPriority = (s.jobs j).jobPriority) ∧
    (privileged = false → (s.jobs i).uPtr = (s.jobs j).uPtr)

theorem inClass_self (C : Config) (s : Mbd) (j : JobRef) (privileged : Bool) : inClass C s j privileged j := by
  simp [inClass]

theorem shifted_of_inClass (h : inClass C s j privileged i) : shifted s j (!privileged) i := by
  simp only [inClass, shifted, decide_eq_true_eq, Bool.not_eq_true'] at *
  exact ⟨h.1, h.2.2⟩

theorem shifted_congr (h : inClass C s j privileged i) : shifted s i (!privileged) = shifted s j (!privileged) := by
  have h' := shifted_of_inClass h
  funext k
  simp only [shifted, decide_eq_true_eq, Bool.not_eq_true'] at *
  cases privileged <;> simp_all

def countOrder (moveReq : JobMoveReq) (jobs : List JobRef) : List JobRef :=
  if moveReq.opCode = .TO_TOP then jobs.reverse else jobs

/-- The loops count the class, up to the first job of another priority behind one of it. -/
theorem moveCandidates_class (C : Config) (s : Mbd) (j : JobRef) (privileged nowpos : Bool) (jobs : List JobRef) :
    moveCandidates C s (s.jobs j) privileged nowpos jobs <+: jobs.filter (inClass C s j privileged) := by
  induction jobs generalizing nowpos with
  | nil => exact nil_prefix
  | cons i jobs ih =>
    unfold moveCandidates
    dsimp only
    split
    · exact nil_prefix
    · by_cases hc : inClass C s j privileged i
      · rw [if_neg, filter_cons_of_pos hc]
        · exact (prefix_cons_inj i).mpr (ih true)
        · simp only [inClass, decide_eq_true_eq] at hc
          cases privileged <;> simp_all
      · rw [if_pos, filter_cons_of_neg hc]
        · exact ih nowpos
        · simp only [inClass, decide_eq_true_eq] at hc
          cases privileged <;> simp_all <;> tauto

/-- The class of a job among the jobs of a list, in the order of a request. -/
def classOf (C : Config) (s : Mbd) (j : JobRef) (moveReq : JobMoveReq) (entries : List JobRef) : List JobRef :=
  countOrder moveReq (entries.filter (inClass C s j moveReq.privileged))

theorem counted_classOf (C : Config) (j : JobRef) (moveReq : JobMoveReq) (s : Mbd) :
    counted C j moveReq s <+: classOf C s j moveReq (s.lists (PJLorMJL j s)).entries := by
  have h := moveCandidates_class C s j moveReq.privileged false
    (if moveReq.opCode = .TO_TOP then (s.lists (PJLorMJL j s)).entries.reverse else (s.lists (PJLorMJL j s)).entries)
  unfold counted classOf countOrder
  split_ifs at h ⊢
  · rwa [filter_reverse] at h
  · exact h

theorem classOf_nodup {entries : List JobRef} (hnd : entries.Nodup) : (classOf C s j moveReq entries).Nodup := by
  unfold classOf countOrder
  split_ifs
  · exact nodup_reverse.mpr (hnd.filter _)
  · exact hnd.filter _

theorem mem_classOf {entries : List JobRef} :
    i ∈ classOf C s j moveReq entries ↔ i ∈ entries ∧ inClass C s j moveReq.privileged i := by
  unfold classOf countOrder
  split_ifs <;> simp

theorem counted_getElem? {k : Nat} (h : (counted C j moveReq s)[k]? = some i) :
    (classOf C s j moveReq (s.lists (PJLorMJL j s)).entries)[k]? = some i := by
  obtain ⟨rest, hr⟩ := counted_classOf C j moveReq s
  rw [← hr, List.getElem?_append_left (List.getElem?_eq_some_iff.mp h).1, h]

theorem counted_nodup (hnd : (s.lists (PJLorMJL j s)).entries.Nodup) : (counted C j moveReq s).Nodup :=
  (classOf_nodup hnd).sublist (counted_classOf C j moveReq s).sublist

theorem getElem?_idxOf_self {jobs : List JobRef} (hj : j ∈ jobs) : jobs[jobs.idxOf j]? = some j := by
  rw [List.getElem?_eq_getElem (idxOf_lt_length_iff.mpr hj), getElem_idxOf]

theorem moveTarget_some {dest : JobRef} (hnd : (s.lists (PJLorMJL j s)).entries.Nodup)
    (h : moveTarget C j moveReq s = some (dest, backward)) : j ∈ counted C j moveReq s ∧ 0 < moveReq.position ∧
      (counted C j moveReq s)[askedIndex moveReq (counted C j moveReq s).length]? = some dest ∧ dest ≠ j := by
  rw [moveTarget_counted] at h
  obtain ⟨⟨hne, hj, hpos⟩, h⟩ := Option.ite_none_right_eq_some.mp h
  rw [if_pos hj] at hne
  obtain ⟨dest', hd, heq⟩ := Option.map_eq_some_iff.mp h
  obtain rfl : dest' = dest := congrArg Prod.fst heq
  refine ⟨hj, (lt_min_iff.mp hpos).1, hd, ?_⟩
  rintro rfl
  have hs := (List.getElem?_inj (List.getElem?_eq_some_iff.mp hd).1 (counted_nodup hnd)).mp
    (hd.trans (getElem?_idxOf_self hj).symm)
  omega

/-- Where there is no target, a counted job has its position already. -/
theorem moveTarget_none (h : moveTarget C j moveReq s = none) (hj : j ∈ counted C j moveReq s)
    (hpos : 0 < moveReq.position) :
    (counted C j moveReq s)[askedIndex moveReq (counted C j moveReq s).length]? = some j := by
  rw [moveTarget_counted] at h
  simp only [hj, if_true, true_and] at h
  have hl : 0 < (counted C j moveReq s).length := length_pos_of_mem hj
  have hmin : 0 < min moveReq.position (counted C j moveReq s).length := lt_min hpos (by omega)
  by_cases hs : min moveReq.position (counted C j moveReq s).length = ((counted C j moveReq s).idxOf j : Int) + 1
  · rw [askedIndex, hs, Int.add_sub_cancel, Int.toNat_natCast]
    exact getElem?_idxOf_self hj
  · rw [if_pos ⟨hs, hmin⟩, Option.map_eq_none_iff, List.getElem?_eq_none_iff] at h
    omega

theorem moveTarget_inClass {dest : JobRef} (hnd : (s.lists (PJLorMJL j s)).entries.Nodup)
    (h : moveTarget C j moveReq s = some (dest, backward)) : inClass C s j moveReq.privileged dest :=
  (mem_classOf.mp (mem_of_getElem? (counted_getElem? (moveTarget_some hnd h).2.2.1))).2

theorem moveAJob_turned (hpend : (s.jobs j).jStatus.mask.isPend)
    (hnd : (s.lists (PJLorMJL j s)).entries.Nodup) (h : moveTarget C j moveReq s = some (dest, backward)) :
    let entries := (s.lists (PJLorMJL j s)).entries
    let entries' := ((moveAJob C j moveReq s).lists (PJLorMJL j s)).entries
    Turned (shifted s j (!moveReq.privileged)) j dest entries entries' ∨
      Turned (shifted s j (!moveReq.privileged)) j dest entries.reverse entries'.reverse := by
  have hc := moveTarget_inClass hnd h
  have hmove : moveAJob C j moveReq s = insertAndShift j dest backward (!moveReq.privileged) s := by
    simp [moveAJob, hpend, h]
  have hs : shifted s dest (!moveReq.privileged) j := by
    rw [shifted_congr hc]
    exact shifted_self s j _
  obtain ⟨-, hsub⟩ := moveTarget_spec h
  rw [hmove, ← shifted_congr hc]
  cases backward with
  | true =>
    obtain ⟨pre, mid, post, he⟩ := Segments.pair_split hsub
    obtain ⟨f, hf, hr⟩ := insertAndShift_rotated_back (by simpa using he) hnd hs
    exact .inl ⟨pre, mid, post, f, by simpa using he, hf, hr⟩
  | false =>
    obtain ⟨pre, mid, post, he⟩ := Segments.pair_split hsub
    obtain ⟨f, hf, hr⟩ := insertAndShift_rotated_forw (by simpa using he) hnd hs
    refine .inr ⟨post.reverse, mid.reverse, pre.reverse, f, ?_, ?_, hr⟩
    · rw [he]
      simp
    · rw [hf]
      simp

theorem moveAJob_perm (C : Config) (moveReq : JobMoveReq) (hnd : (s.lists (PJLorMJL j s)).entries.Nodup) :
    ((moveAJob C j moveReq s).lists (PJLorMJL j s)).entries.Perm (s.lists (PJLorMJL j s)).entries := by
  obtain ⟨_, _, _, _, -, -, hs, -⟩ := moveAJob_shifts C moveReq hnd
  exact (hs.entries hnd).2

theorem moveAJob_place (hpend : (s.jobs j).jStatus.mask.isPend)
    (hnd : (s.lists (PJLorMJL j s)).entries.Nodup) (h : moveTarget C j moveReq s = some (dest, backward)) (k : Nat)
    (hk : (classOf C s j moveReq (s.lists (PJLorMJL j s)).entries)[k]? = some dest) :
    (classOf C s j moveReq ((moveAJob C j moveReq s).lists (PJLorMJL j s)).entries)[k]? = some j := by
  have hc := moveTarget_inClass hnd h
  have hl := ((moveAJob_perm C moveReq hnd).filter (inClass C s j moveReq.privileged)).length_eq
  have hpla : ∀ k : Nat, ((s.lists (PJLorMJL j s)).entries.filter (inClass C s j moveReq.privileged))[k]? = some dest →
      (((moveAJob C j moveReq s).lists (PJLorMJL j s)).entries.filter (inClass C s j moveReq.privileged))[k]? = some j := by
    rcases moveAJob_turned hpend hnd h with hturn | hturn
    · exact fun k => hturn.place (fun _ => shifted_of_inClass) (inClass_self C s j _) hc hnd
    · have hr := fun k => hturn.place (c := inClass C s j moveReq.privileged) (k := k) (fun _ => shifted_of_inClass)
        (inClass_self C s j _) hc (nodup_reverse.mpr hnd)
      have := reverse_place (by simpa using hl) hr
      simpa using this
  unfold classOf countOrder at hk ⊢
  split_ifs at hk ⊢
  · exact reverse_place hl hpla k hk
  · exact hpla k hk

theorem moveAJob_stays_iff (hpend : (s.jobs j).jStatus.mask.isPend)
    (hnd : (s.lists (PJLorMJL j s)).entries.Nodup) (h : moveTarget C j moveReq s = some (dest, backward)) :
    List.Forall₂ (fun i i' => inClass C s j moveReq.privileged i = false → i' = i) (s.lists (PJLorMJL j s)).entries
        ((moveAJob C j moveReq s).lists (PJLorMJL j s)).entries ↔
      ∀ i, Between (s.lists (PJLorMJL j s)).entries j dest i ∨ Between (s.lists (PJLorMJL j s)).entries dest j i →
        shifted s j (!moveReq.privileged) i → inClass C s j moveReq.privileged i := by
  have hc := moveTarget_inClass hnd h
  have hnd' := (moveAJob_perm C moveReq hnd).nodup_iff.mpr hnd
  have hself := inClass_self C s j moveReq.privileged
  have hs := shifted_self s j (!moveReq.privileged)
  rcases moveAJob_turned hpend hnd h with hturn | hturn
  · rw [hturn.stays_iff hself hc hs hnd hnd']
    refine forall_congr' fun i => imp_congr_left ⟨.inl, fun hb => hb.resolve_right (hturn.not_swapped hnd)⟩
  · have hr := nodup_reverse.mpr hnd
    rw [← forall₂_reverse_iff, hturn.stays_iff hself hc hs hr (nodup_reverse.mpr hnd')]
    refine forall_congr' fun i => imp_congr_left ?_
    rw [between_reverse]
    exact ⟨.inr, fun hb => hb.resolve_left fun hb => hturn.not_swapped hr (between_reverse.mpr hb)⟩

/-- The jobs are the same, those outside the class stay, and the job is at its place in it. -/
structure MoveOk (C : Config) (j : JobRef) (moveReq : JobMoveReq) (s s' : Mbd) : Prop where
  jobs : (s'.lists (PJLorMJL j s)).entries.Perm (s.lists (PJLorMJL j s)).entries
  others : List.Forall₂ (fun i i' => inClass C s j moveReq.privileged i = false → i' = i)
    (s.lists (PJLorMJL j s)).entries (s'.lists (PJLorMJL j s)).entries
  place : 0 < moveReq.position ∧ (classOf C s j moveReq (s'.lists (PJLorMJL j s)).entries)[askedIndex moveReq
    (classOf C s j moveReq (s.lists (PJLorMJL j s)).entries).length]? = some j

/-- The job is in place, or both jobs and those that are shifted are of the class. -/
def Movable (C : Config) (j : JobRef) (moveReq : JobMoveReq) (s : Mbd) : Prop :=
  let entries := (s.lists (PJLorMJL j s)).entries
  let jobs := classOf C s j moveReq entries
  ∃ dest, 0 < moveReq.position ∧ jobs[askedIndex moveReq jobs.length]? = some dest ∧
    (dest = j ∨ j ∈ counted C j moveReq s ∧ dest ∈ counted C j moveReq s ∧
      ∀ i, Between entries j dest i ∨ Between entries dest j i → shifted s j (!moveReq.privileged) i →
        inClass C s j moveReq.privileged i)

/-- The requested place lies among the counted jobs where its job does. -/
theorem askedIndex_counted (hnd : (s.lists (PJLorMJL j s)).entries.Nodup) (hpos : 0 < moveReq.position) {dest : JobRef}
    (hd : (classOf C s j moveReq (s.lists (PJLorMJL j s)).entries)[askedIndex moveReq
      (classOf C s j moveReq (s.lists (PJLorMJL j s)).entries).length]? = some dest) (hmem : dest ∈ counted C j moveReq s) :
    askedIndex moveReq (counted C j moveReq s).length =
        askedIndex moveReq (classOf C s j moveReq (s.lists (PJLorMJL j s)).entries).length ∧
      (counted C j moveReq s)[askedIndex moveReq (counted C j moveReq s).length]? = some dest := by
  have hle := (counted_classOf C j moveReq s).length_le
  obtain ⟨k, hk⟩ := List.getElem?_of_mem hmem
  have hk' := (List.getElem?_inj (List.getElem?_eq_some_iff.mp (counted_getElem? hk)).1 (classOf_nodup hnd)).mp
    ((counted_getElem? hk).trans hd.symm)
  have hlt := (List.getElem?_eq_some_iff.mp hk).1
  have heq : askedIndex moveReq (counted C j moveReq s).length =
      askedIndex moveReq (classOf C s j moveReq (s.lists (PJLorMJL j s)).entries).length := by
    unfold askedIndex at hk' ⊢
    omega
  exact ⟨heq, by rw [heq, ← hk']; exact hk⟩

theorem moveAJob_none (h : moveTarget C j moveReq s = none) : moveAJob C j moveReq s = s := by
  unfold moveAJob
  rw [h]
  split_ifs <;> rfl

theorem exists_asked (C : Config) (moveReq : JobMoveReq) (hj : j ∈ (s.lists (PJLorMJL j s)).entries) :
    ∃ dest, (classOf C s j moveReq (s.lists (PJLorMJL j s)).entries)[askedIndex moveReq
      (classOf C s j moveReq (s.lists (PJLorMJL j s)).entries).length]? = some dest := by
  have hpos : 0 < (classOf C s j moveReq (s.lists (PJLorMJL j s)).entries).length :=
    length_pos_of_mem (mem_classOf.mpr ⟨hj, inClass_self C s j _⟩)
  refine ⟨_, List.getElem?_eq_getElem ?_⟩
  unfold askedIndex
  omega

theorem movable_of_moveOk (hpend : (s.jobs j).jStatus.mask.isPend) (hj : j ∈ (s.lists (PJLorMJL j s)).entries)
    (hnd : (s.lists (PJLorMJL j s)).entries.Nodup) (h : MoveOk C j moveReq s (moveAJob C j moveReq s)) :
    Movable C j moveReq s := by
  obtain ⟨hpos, hpla⟩ := h.place
  obtain ⟨dest, hd⟩ := exists_asked C moveReq hj
  refine ⟨dest, hpos, hd, ?_⟩
  cases ht : moveTarget C j moveReq s with
  | none =>
    rw [moveAJob_none ht, hd] at hpla
    exact .inl (Option.some.inj hpla)
  | some target =>
    obtain ⟨dest', backward⟩ := target
    obtain ⟨hjc, -, hg, -⟩ := moveTarget_some hnd ht
    have hn := moveAJob_place hpend hnd ht _ (counted_getElem? hg)
    have hnd' := (moveAJob_perm C moveReq hnd).nodup_iff.mpr hnd
    have hs := (List.getElem?_inj (List.getElem?_eq_some_iff.mp hn).1 (classOf_nodup hnd')).mp (hn.trans hpla.symm)
    obtain rfl : dest = dest' := by
      have hg' := counted_getElem? hg
      rw [hs, hd] at hg'
      exact Option.some.inj hg'
    exact .inr ⟨hjc, mem_of_getElem? hg, (moveAJob_stays_iff hpend hnd ht).mp h.others⟩

theorem moveOk_of_movable (hpend : (s.jobs j).jStatus.mask.isPend) (hnd : (s.lists (PJLorMJL j s)).entries.Nodup)
    (h : Movable C j moveReq s) : MoveOk C j moveReq s (moveAJob C j moveReq s) := by
  obtain ⟨dest, hpos, hd, hor⟩ := h
  by_cases hdj : dest = j
  · subst hdj
    have ht : moveTarget C dest moveReq s = none := by
      by_contra hs
      obtain ⟨⟨dest', backward⟩, ht⟩ := Option.ne_none_iff_exists'.mp hs
      obtain ⟨hjc, -, hg, hne⟩ := moveTarget_some hnd ht
      rw [(askedIndex_counted hnd hpos hd hjc).2] at hg
      exact hne (Option.some.inj hg).symm
    rw [moveAJob_none ht]
    exact ⟨.refl _, forall₂_same.mpr fun _ _ _ => rfl, hpos, hd⟩
  · obtain ⟨hjc, hdc, hall⟩ := hor.resolve_left hdj
    obtain ⟨-, ha⟩ := askedIndex_counted hnd hpos hd hdc
    cases ht : moveTarget C j moveReq s with
    | none =>
      rw [moveTarget_none ht hjc hpos] at ha
      exact absurd (Option.some.inj ha).symm hdj
    | some target =>
      obtain ⟨dest', backward⟩ := target
      obtain ⟨-, -, hg, -⟩ := moveTarget_some hnd ht
      obtain rfl : dest = dest' := Option.some.inj (ha.symm.trans hg)
      exact ⟨moveAJob_perm C moveReq hnd, (moveAJob_stays_iff hpend hnd ht).mpr hall, hpos,
        moveAJob_place hpend hnd ht _ hd⟩

/-- `moveAJob` ends after at most two calls and does what it is for iff the job is movable. -/
theorem moveAJob_ok_iff (hpend : (s.jobs j).jStatus.mask.isPend) (hj : j ∈ (s.lists (PJLorMJL j s)).entries)
    (hnd : (s.lists (PJLorMJL j s)).entries.Nodup) :
    (∃ cc s', moveAJobCalls C j 2 moveReq s = some (cc, s') ∧ MoveOk C j moveReq s s') ↔ Movable C j moveReq s := by
  obtain ⟨⟨cc, s1⟩, hc, hs1⟩ := Option.map_eq_some_iff.mp (moveAJobCalls_twice C j moveReq s)
  subst hs1
  constructor
  · rintro ⟨cc', s', hc', hok⟩
    obtain ⟨-, rfl⟩ := Prod.mk.inj (Option.some.inj (hc'.symm.trans hc))
    exact movable_of_moveOk hpend hj hnd hok
  · exact fun h => ⟨cc, _, hc, moveOk_of_movable hpend hnd h⟩

def threePending : Mbd where
  jobs := fun i => { initJData (101 + i) 0 { queue := 0 } with jobPriority := if i = 1 then 7 else 5 }
  queues := fun _ => {}
  users := fun _ => {}
  hosts := fun _ => { maxJobs := 3 }
  lists := fun l => if l = .PJL then { entries := [0, 1, 2], numEnts := 3 } else {}

theorem moveAJob_ok_threePending : ∃ cc s', moveAJobCalls {} 0 2 ⟨.TO_TOP, 2, false⟩ threePending = some (cc, s') ∧
      MoveOk {} 0 ⟨.TO_TOP, 2, false⟩ threePending s' := by
  refine (moveAJob_ok_iff (by decide) (by decide) (by decide)).mpr ⟨1, by decide, by decide, .inr ⟨by decide, by decide, ?_⟩⟩
  intro i _ _
  simp [inClass, threePending, initJData]

/-- With user priorities a job of another priority is shifted as well. -/
theorem moveAJob_shifts_other_priority :
    ¬ ∃ cc s', moveAJobCalls { maxUserPriority := 10 } 0 2 ⟨.TO_TOP, 1, true⟩ threePending = some (cc, s') ∧
      MoveOk { maxUserPriority := 10 } 0 ⟨.TO_TOP, 1, true⟩ threePending s' := by
  rintro ⟨cc, s', hc, hok⟩
  have hlist : (s'.lists .PJL).entries = [1, 2, 0] := by
    have he : (moveAJobCalls { maxUserPriority := 10 } 0 2 ⟨.TO_TOP, 1, true⟩ threePending).map
        (fun r => (r.2.lists .PJL).entries) = some [1, 2, 0] := by decide
    rw [hc] at he
    exact Option.some.inj he
  have ho := hok.others
  rw [show PJLorMJL 0 threePending = .PJL by decide, hlist] at ho
  obtain ⟨b, hb, hs⟩ := forall₂_getElem? ho (show [0, 1, 2][1]? = some 1 by decide)
  obtain rfl : 2 = b := by simpa using hb
  exact absurd (hs (by decide)) (by decide)

end

end OpenLava

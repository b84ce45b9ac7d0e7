import OpenLava.Mbd.ListEdits

/-!
# The ends that the queues know, and the lengths of the lists

The lists of started, migrating and pending jobs ascend by the priorities of the queues. Each queue knows the two ends
of the jobs of its priority, and the list package the length of each list.
-/

namespace OpenLava

open Function List Mask Segments Run

variable {s s' : Mbd} {j : JobRef} {l : ListNo}

def endsAt (s : Mbd) (prio : Int) (entries : List JobRef) : JobEnds :=
  { firstJob := (segment (jobKey s) prio entries).getLast?
    lastJob := (segment (jobKey s) prio entries).head? }

def endsOf (s : Mbd) (l : ListNo) (q : QRef) : JobEnds := endsAt s (s.queues q).priority (s.lists l).entries

section

theorem jobsOnSameSegment_iff (s : Mbd) (j i : JobRef) : jobsOnSameSegment s j i = decide (jobKey s i = jobKey s j) := by
  unfold jobsOnSameSegment jobKey
  by_cases hq : (s.jobs i).qPtr = (s.jobs j).qPtr <;> simp [hq]

theorem prevJob_split (s : Mbd) (h : j ∉ l1) :
    prevJobOnSegment s j (l1 ++ j :: l2) = l2.head?.filter fun b => jobKey s b = jobKey s j := by
  rw [prevJobOnSegment, forwOf_split h]
  exact congrArg (l2.head?.filter ·) (funext (jobsOnSameSegment_iff s j))

theorem nextJob_split (s : Mbd) (h : j ∉ l1) :
    nextJobOnSegment s j (l1 ++ j :: l2) = l1.getLast?.filter fun a => jobKey s a = jobKey s j := by
  rw [nextJobOnSegment, backOf_split h]
  exact congrArg (l1.getLast?.filter ·) (funext (jobsOnSameSegment_iff s j))

theorem jobIsFirst_eq (s : Mbd) (j : JobRef) (entries : List JobRef) :
    jobIsFirstOnSegment s j entries = (prevJobOnSegment s j entries).isNone := by
  unfold jobIsFirstOnSegment prevJobOnSegment
  cases forwOf j entries with
  | none => rfl
  | some i => cases hi : jobsOnSameSegment s j i <;> simp [Option.filter, hi]

theorem jobIsLast_eq (s : Mbd) (j : JobRef) (entries : List JobRef) :
    jobIsLastOnSegment s j entries = (nextJobOnSegment s j entries).isNone := by
  unfold jobIsLastOnSegment nextJobOnSegment
  cases backOf j entries with
  | none => rfl
  | some i => cases hi : jobsOnSameSegment s j i <;> simp [Option.filter, hi]

theorem endsAt_enter (h : Ascending (jobKey s) (l1 ++ j :: l2)) (hj : j ∉ l1)
    (hold : old = endsAt s (jobKey s j) (l1 ++ l2)) : endsAt s (jobKey s j) (l1 ++ j :: l2) =
      { firstJob := if jobIsFirstOnSegment s j (l1 ++ j :: l2) then some j else old.firstJob
        lastJob := if jobIsLastOnSegment s j (l1 ++ j :: l2) then some j else old.lastJob } := by
  rw [jobIsFirst_eq, jobIsLast_eq, prevJob_split s hj, nextJob_split s hj, hold, endsAt, getLast_with h, head_with h]
  rfl

theorem endsAt_leave (h : Ascending (jobKey s) (l1 ++ j :: l2)) (hj : j ∉ l1)
    (hold : old = endsAt s (jobKey s j) (l1 ++ j :: l2)) : endsAt s (jobKey s j) (l1 ++ l2) =
      { firstJob := if jobIsFirstOnSegment s j (l1 ++ j :: l2) then nextJobOnSegment s j (l1 ++ j :: l2) else old.firstJob
        lastJob := if jobIsLastOnSegment s j (l1 ++ j :: l2) then prevJobOnSegment s j (l1 ++ j :: l2)
          else old.lastJob } := by
  rw [jobIsFirst_eq, jobIsLast_eq, prevJob_split s hj, nextJob_split s hj, hold, endsAt, getLast_without h, head_without h]
  rfl

theorem endsAt_other (h : jobKey s j ≠ v) : endsAt s v (l1 ++ j :: l2) = endsAt s v (l1 ++ l2) := by
  unfold endsAt
  rw [segment_split_other h]

theorem updateQueueJobPtr_eq (s : Mbd) (l : ListNo) (e : JobEnds) (l' : ListNo) (q : QRef) :
    updateQueueJobPtr s l (s.jobs j).qPtr e l' q =
      if l' = l ∧ jobKey s j = (s.queues q).priority then e else s.ends l' q := by
  refine if_congr (and_congr_right fun _ => ⟨?_, fun h => .inr h.symm⟩) rfl rfl
  rintro (rfl | h)
  · rfl
  · exact h.symm

theorem LinkedIn.linkedEntries (h : LinkedIn s j l) : OpenLava.linkedEntries s j = (s.lists l).entries := by
  unfold OpenLava.linkedEntries
  cases l <;> simp [h.mem_iff]

end

/-- On a list in order `setQueueFirstAndLastJob` finds the ends, if there are jobs. -/
theorem setQueueFirstAndLastJob_eq (hasc : Ascending (jobKey s) (s.lists l).entries) (hnd : (s.lists l).entries.Nodup)
    (hold : segment (jobKey s) (s.queues q).priority (s.lists l).entries = [] → old = {}) :
    setQueueFirstAndLastJob s q l old = endsOf s l q := by
  set v := (s.queues q).priority with hv
  obtain ⟨below, above, heq, hb, ha⟩ := ascending_parts hasc v
  set seg := segment (jobKey s) v (s.lists l).entries with hs
  have hin : ∀ i ∈ seg, jobKey s i = v := fun i hi => by simpa using (mem_filter.mp hi).2
  have hr : (s.lists l).entries.reverse = (above.reverse ++ seg.reverse) ++ below.reverse := by simp [heq]
  have hf : ((s.lists l).entries.reverse.takeWhile fun i => decide (v ≤ jobKey s i)).find?
      (fun i => decide (jobKey s i = v)) = seg.getLast? := by
    rw [hr, takeWhile_parts, find?_parts, List.head?_reverse]
    · exact fun i hi => by simpa using (ha i (by simpa using hi)).ne'
    · exact fun i hi => by simpa using hin i (by simpa using hi)
    · intro i hi
      rcases mem_append.mp hi with hi | hi
      · simpa using (ha i (by simpa using hi)).le
      · simpa using (hin i (by simpa using hi)).ge
    · exact fun i hi => by simpa using hb i (by simpa using hi)
  unfold setQueueFirstAndLastJob endsOf
  simp only [← jobKey.eq_def, ← hv]
  rw [hf, endsAt, ← hs]
  rcases eq_nil_or_concat seg with hn | ⟨seg', first, hc⟩
  · rw [hold hn, hn]
    rfl
  · rw [concat_eq_append] at hc
    have hh : ∀ post, ((seg' ++ [first]) ++ post).head? = (seg' ++ [first]).head? := by
      cases seg' <;> simp
    have hn : first ∉ above.reverse := fun hf =>
      (ha first (by simpa using hf)).ne' (hin first (by simp [hc]))
    have hlast : (((s.lists l).entries.reverse.dropWhile (· ≠ first)).tail.find? fun i => decide (jobKey s i < v)) =
        below.getLast? := by
      rw [hr, hc, reverse_append, reverse_singleton, append_assoc, append_assoc,
        singleton_append, dropWhile_ne hn, tail_cons, find?_parts, List.head?_reverse]
      · exact fun i hi => by simpa using (hin i (hc ▸ mem_append_left _ (mem_reverse.mp hi))).ge
      · exact fun i hi => by simpa using hb i (by simpa using hi)
    rw [hc, List.getLast?_concat, Option.some_or]
    refine congrArg (JobEnds.mk (some first)) ?_
    rw [hlast]
    rcases eq_nil_or_concat below with rfl | ⟨below', i, rfl⟩
    · rw [heq, hc]
      exact hh above
    · rw [concat_eq_append, List.getLast?_concat]
      have hs : (s.lists l).entries = below' ++ i :: ((seg' ++ [first]) ++ above) := by simp [heq, hc]
      show forwOf i (s.lists l).entries = _
      rw [hs, forwOf_split (notMem_before (hs ▸ hnd)), hh]

/-- The lists are in order, and after the replay every queue knows its ends. -/
structure Ordered (s : Mbd) : Prop where
  ascending : ∀ l, l ≠ .FJL → Ascending (jobKey s) (s.lists l).entries
  ends : s.replay = false → ∀ l, l ≠ .FJL → ∀ q, s.ends l q = endsOf s l q
  idle : s.replay = true → ∀ l, l ≠ .FJL → ∀ q, s.ends l q = {}

theorem Ordered.rest (h : Ordered s) (hlis : s'.lists = s.lists) (he : s'.ends = s.ends)
    (hrep : s'.replay = s.replay) (hprio : ∀ q, (s'.queues q).priority = (s.queues q).priority)
    (hkey : ∀ l, l ≠ .FJL → ∀ i ∈ (s.lists l).entries, jobKey s' i = jobKey s i) : Ordered s' where
  ascending l hl := by
    rw [hlis]
    refine (h.ascending l hl).imp_of_mem fun {a b} ha hb hab => ?_
    rwa [hkey l hl a ha, hkey l hl b hb]
  ends hr l hl q := by
    have hs : segment (jobKey s') (s'.queues q).priority (s'.lists l).entries =
        segment (jobKey s) (s.queues q).priority (s.lists l).entries := by
      rw [hlis, hprio]
      exact filter_congr fun i hi => by rw [hkey l hl i hi]
    rw [he, h.ends (hrep ▸ hr) l hl q, endsOf, endsOf, endsAt, endsAt, hs]
  idle hr l hl q := by
    rw [he]
    exact h.idle (hrep ▸ hr) l hl q

theorem LinkedIn.split (h : LinkedIn s j l) : ∃ l1 l2, (s.lists l).entries = l1 ++ j :: l2 ∧ j ∉ l1 := by
  obtain ⟨l1, l2, heq⟩ := append_of_mem ((h.mem_iff l).mpr rfl)
  refine ⟨l1, l2, heq, fun hin => ?_⟩
  have hc : (s.lists l).entries.count j = 1 := by simpa [linkCount] using h l
  have := count_pos_iff.mpr hin
  rw [heq, count_append, count_cons_self] at hc
  omega

/-- One list is edited at one job; the queues that observe it take the new ends. -/
theorem Ordered.edit (h : Ordered s) (hr : Relisted s s')
    (hoth : ∀ l', l' ≠ l → (s'.lists l').entries = (s.lists l').entries)
    (ha : l ≠ .FJL → Ascending (jobKey s) (s'.lists l).entries)
    (hsegs : ∀ v, jobKey s j ≠ v → endsAt s v (s'.lists l).entries = endsAt s v (s.lists l).entries)
    (hs : observed s l = true →
      s'.ends = updateQueueJobPtr s l (s.jobs j).qPtr (endsAt s (jobKey s j) (s'.lists l).entries))
    (hu : observed s l = false → s'.ends = s.ends) : Ordered s' := by
  obtain ⟨lists, ends, rfl⟩ := hr
  refine ⟨fun l' hl' => ?_, fun hr l' hl' q => ?_, fun hr l' hl' q => ?_⟩
  · by_cases hl : l' = l
    · exact hl ▸ ha (hl ▸ hl')
    · rw [hoth l' hl]
      exact h.ascending l' hl'
  · have he := h.ends hr l' hl' q
    show ends l' q = endsAt s (s.queues q).priority (lists l').entries
    by_cases hl : l' = l
    · subst hl
      rw [show ends = _ from hs (by simp [observed, show s.replay = false from hr, hl']), updateQueueJobPtr_eq]
      split
      · rename_i hq
        rw [hq.2]
      · rename_i hq
        rw [he]
        exact (hsegs _ fun hv => hq ⟨rfl, hv⟩).symm
    · have hkeep : ends l' q = s.ends l' q := by
        cases ho : observed s l with
        | true => rw [show ends = _ from hs ho, updateQueueJobPtr_eq, if_neg fun hc => hl hc.1]
        | false => rw [show ends = _ from hu ho]
      rw [hkeep, he, show (lists l').entries = _ from hoth l' hl]
      rfl
  · have ho : observed s l = false := by simp [observed, show s.replay = true from hr]
    rw [hu ho]
    exact h.idle hr l' hl' q

theorem observed_iff : observed s l = true ↔ s.replay = false ∧ l ≠ .FJL := by simp [observed]

theorem Ordered.off (h : Ordered s) (hj : LinkedIn s j l) : Ordered (offJobList j l s) := by
  obtain ⟨l1, l2, heq, hn⟩ := hj.split
  have he : ((offJobList j l s).lists l).entries = l1 ++ l2 := by
    show (s.lists l).entries.erase j = _
    rw [heq, erase_split hn]
  have ha : l ≠ .FJL → Ascending (jobKey s) (l1 ++ j :: l2) := fun hl => heq ▸ h.ascending l hl
  refine h.edit (j := j) (l := l) (offJobList_relisted j l s) (fun l' hl => ?_) (fun hl => ?_) (fun v hv => ?_) (fun ho => ?_)
    fun ho => ?_
  · exact erase_of_not_mem fun hin => hl ((hj.mem_iff l').mp hin)
  · exact he ▸ (ascending_split.mp (ha hl)).1
  · rw [he, heq, endsAt_other hv]
  · obtain ⟨hr, hl⟩ := observed_iff.mp ho
    have hold : s.ends l (s.jobs j).qPtr = endsAt s (jobKey s j) (l1 ++ j :: l2) := heq ▸ h.ends hr l hl _
    show (if observed s l then queueObserverLeave s l j else s.ends) = _
    rw [if_pos ho, queueObserverLeave, hj.linkedEntries, he, endsAt_leave (ha hl) hn hold, heq]
  · show (if observed s l then queueObserverLeave s l j else s.ends) = _
    rw [if_neg (by simp [ho])]

theorem Ordered.insert (h : Ordered s) (hj : Unlinked s j) (hl : l ≠ .FJL) (hk : k ≤ (s.lists l).entries.length)
    (hfit : FitsAt s j k (s.lists l).entries) : Ordered (listInsertEntryBefore l k j s) := by
  obtain ⟨l1, l2, heq, hi, hl1, hl2⟩ := insertIdx_split (a := j) (s.lists l).entries hk
  have he : ((listInsertEntryBefore l k j s).lists l).entries = l1 ++ j :: l2 := by
    simp only [listInsertEntryBefore, update_self]
    exact hi
  have hn : j ∉ l1 := fun hin => by
    refine count_eq_zero.mp (hj l) ?_
    rw [heq]
    exact mem_append_left _ hin
  have ha : Ascending (jobKey s) (l1 ++ j :: l2) := by
    refine ascending_split.mpr ⟨heq ▸ h.ascending l hl, ?_, ?_⟩
    · exact hl1 ▸ hfit.1
    · exact hl2 ▸ hfit.2
  refine h.edit (j := j) (l := l) ⟨_, _, rfl⟩ (fun l' hl' => ?_) (fun _ => he ▸ ha) (fun v hv => ?_) (fun ho => ?_)
    fun ho => ?_
  · simp only [listInsertEntryBefore, update_of_ne hl']
  · rw [he, heq, endsAt_other hv]
  · obtain ⟨hr, hl⟩ := observed_iff.mp ho
    have hold : s.ends l (s.jobs j).qPtr = endsAt s (jobKey s j) (l1 ++ l2) := heq ▸ h.ends hr l hl _
    rw [he, endsAt_enter ha hn hold]
    show (if observed s l then queueObserverEnter { s with lists := _ } l j else s.ends) = _
    rw [if_pos ho, queueObserverEnter]
    simp only [update_self, hi]
    rfl
  · show (if observed s l then queueObserverEnter { s with lists := _ } l j else s.ends) = _
    rw [if_neg (by simp [ho])]

theorem Ordered.finish (h : Ordered s) (j : JobRef) : Ordered (inFinishList j s) := by
  have ho : ∀ l, l ≠ .FJL → ((inFinishList j s).lists l).entries = (s.lists l).entries := fun l hl => by
    simp only [inFinishList, update_of_ne hl]
  refine ⟨fun l hl => ?_, fun hr l hl q => ?_, h.idle⟩
  · rw [ho l hl]
    exact h.ascending l hl
  · rw [endsOf, ho l hl]
    exact h.ends hr l hl q

theorem Ordered.edits (h : Ordered s) (he : Edits n s s') : Ordered s' := by
  induction he with
  | rest hl he hr hprio hkey => exact h.rest hl he hr hprio hkey
  | off hj => exact h.off hj
  | insert hj hl hk hfit => exact h.insert hj hl hk (hfit (h.ascending _ hl))
  | finish j => exact h.finish j
  | trans _ _ ih ih' => exact ih' (ih h)

def uncounted (s : Mbd) (l : ListNo) : Int := (s.lists l).entries.length - (s.lists l).numEnts

theorem Edits.uncounted (h : Edits n s s') (l : ListNo) :
    uncounted s' l = OpenLava.uncounted s l + if l = .FJL then (n : Int) else 0 := by
  induction h with
  | rest hl => simp [OpenLava.uncounted, hl]
  | @off s j l' hj =>
    have hl := length_erase (l := (s.lists l).entries) (a := j)
    simp only [hj.mem_iff] at hl
    simp only [OpenLava.uncounted, offJobList, listRemoveEntry, hl]
    by_cases hl : l = l'
    · have hpos := length_pos_of_mem ((hj.mem_iff l).mpr hl)
      simp only [hl, if_true] at hpos ⊢
      push_cast [Nat.cast_sub (show 1 ≤ (s.lists l').entries.length from hpos)]
      split_ifs <;> omega
    · simp [hl]
  | @insert s j l' k hj hl' hk =>
    simp only [OpenLava.uncounted, listInsertEntryBefore]
    by_cases hl : l = l'
    · subst hl
      simp only [update_self, length_insertIdx_of_le_length hk, hl', if_false]
      push_cast
      omega
    · simp [update_of_ne hl]
  | @finish s j =>
    simp only [OpenLava.uncounted, inFinishList]
    by_cases hl : l = .FJL
    · subst hl
      simp only [update_self, length_cons, if_true]
      push_cast
      omega
    · simp [hl]
  | trans _ _ ih ih' =>
    rw [ih', ih]
    split_ifs <;> push_cast <;> omega

/-- In addition, what is requeued or removed is finished, and no change is of a finished job. -/
def Orderly (op : Op) (s : Mbd) : Prop :=
  Linkable op s ∧
    match op with
    | .jStatusChange _ j newStatus _ => Unlinks (s.jobs j).jStatus.mask newStatus
    | .handleRequeueJob _ j | .removeJob j => j ∈ s.live ∧ (s.jobs j).jStatus.mask.isFinish
    | .replayNewstat _ _ j newStat => newStat.jStatus.isPostFinish ∨ newStat.jStatus.unkwn ∨
        ((s.jobs j).jStatus.mask.isPend ∧ newStat.jStatus.isStart) ∨ Unlinks (s.jobs j).jStatus.mask newStat.jStatus
    | _ => True

instance : (op : Op) → (s : Mbd) → Decidable (Orderly op s)
  | .jStatusChange .. , _ | .handleRequeueJob .. , _ | .removeJob _, _ | .replayNewstat .. , _ =>
    inferInstanceAs (Decidable (_ ∧ _))
  | .newJob .. , _ | .newJobArray .. , _ | .allocHosts .. , _ | .deallocHosts _, _ | .reserveSlots .. , _
  | .freeReserveSlots _, _ | .takeReserve _, _ | .dropReserve _, _ | .switchAJob .. , _ | .moveAJob .. , _
  | .arrayRequeue .. , _ | .modify .. , _ | .note .. , _ | .setUnkwn .. , _ | .postFinish .. , _ | .endReplay, _ =>
    inferInstanceAs (Decidable (_ ∧ True))

/-- The operations that take a job into `FJL`. -/
def FinishesJob (op : Op) (s : Mbd) : Prop :=
  match op with
  | .jStatusChange _ j newStatus _ => Finishes (s.jobs j).jStatus.mask newStatus
  | .replayNewstat env _ j newStat => ReplayFinishes env newStat (s.jobs j)
  | _ => False

instance : (op : Op) → (s : Mbd) → Decidable (FinishesJob op s)
  | .jStatusChange .. , _ => inferInstanceAs (Decidable (Finishes _ _))
  | .replayNewstat .. , _ => inferInstanceAs (Decidable (ReplayFinishes _ _ _))
  | .newJob .. , _ | .newJobArray .. , _ | .allocHosts .. , _ | .deallocHosts _, _ | .reserveSlots .. , _
  | .freeReserveSlots _, _ | .takeReserve _, _ | .dropReserve _, _ | .switchAJob .. , _ | .moveAJob .. , _
  | .handleRequeueJob .. , _ | .arrayRequeue .. , _ | .removeJob _, _ | .modify .. , _ | .note .. , _
  | .setUnkwn .. , _ | .postFinish .. , _ | .endReplay, _ => inferInstanceAs (Decidable False)

theorem reserveSlots_queue (j : JobRef) (now : Int) (s : Mbd) :
    ((reserveSlots C now j s).jobs j).qPtr = (s.jobs j).qPtr := by
  have ht : ∀ f : JData → JData, (f (s.jobs j)).qPtr = (s.jobs j).qPtr →
      ((takeReserve j (s.modJob j f)).jobs j).qPtr = (s.jobs j).qPtr := fun f hf => by
    rw [takeReserve_queue, modJob_job, hf]
  unfold reserveSlots
  split
  · rfl
  · split
    · exact ht _ rfl
    · exact ht _ rfl

/-- Every operation but the end of the replay edits the lists. -/
theorem Linked.stepEdits (h : Linked s) (ha : ∀ l, l ≠ .FJL → Ascending (jobKey s) (s.lists l).entries)
    (hop : Orderly op s) (he : op ≠ .endReplay) : Edits (if FinishesJob op s then 1 else 0) s (OpenLava.step C op s) := by
  cases op with
  | newJob now fromLog j jobId user bill => exact h.newEdits hop.1 now fromLog rfl
  | newJobArray a jobId user bill elems => exact h.arrayEdits hop.1.1 rfl elems hop.1.2.1 hop.1.2.2
  | jStatusChange now j n eventTime => exact (h.inPlace j hop.1.1).statusEdits now eventTime hop.2
  | allocHosts j n cands =>
    refine ((Touches.refl _ false j s).allocHosts n cands).edits (.inr ?_)
    unfold OpenLava.allocHosts
    split_ifs
    · rfl
    · rw [modJob_job]
      rfl
  | deallocHosts j =>
    refine (Touches.refl _ false j s).deallocHosts.edits (.inr ?_)
    unfold OpenLava.deallocHosts
    rw [modJob_job]
    rfl
  | reserveSlots now j => exact ((Touches.refl _ false j s).reserveSlots C now).edits (.inr (reserveSlots_queue j now s))
  | freeReserveSlots j => exact (Touches.refl _ false j s).freeReserveSlots.edits (.inr (freeReserveSlots_queue j s))
  | takeReserve j => exact (Touches.refl _ false j s).takeReserve.edits (.inr (takeReserve_queue j s))
  | dropReserve j => exact (Touches.refl _ false j s).dropReserve.edits (.inr (dropReserve_queue j s))
  | switchAJob j q verdict => exact (h.inPlace j hop.1).switchEdits q verdict
  | moveAJob j moveReq => exact h.moveEdits ha j moveReq
  | handleRequeueJob time j => exact ((h.inPlace j hop.2.1).finishedIn hop.2.2).requeueEdits time
  | arrayRequeue now req node elems => exact h.requeueEdits now req node elems hop.1
  | removeJob j => exact ((h.inPlace j hop.2.1).finishedIn hop.2.2).removeEdits
  | modify j newSub => exact (Edits.refl s).modJob (fun jp => { jp with newSub := some newSub }) (.inr rfl)
  | note j n => exact (Edits.refl s).modJob n.write (.inr rfl)
  | setUnkwn j b => exact (Edits.refl s).modJob (·.withUnkwn b) (.inr rfl)
  | postFinish j pdone perr =>
    refine (Edits.refl s).modJob (·.postFinish pdone perr) (.inr ?_)
    unfold JData.postFinish
    dsimp only
    split_ifs <;> rfl
  | replayNewstat env eventTime j newStat => exact (h.inPlace j hop.1.1).recordEdits env eventTime hop.2
  | endReplay => exact absurd rfl he

theorem countReplayed_edits (s : Mbd) (j : JobRef) : Edits 0 s (countReplayed s j) := by
  obtain ⟨hj, -, hl, -⟩ := countReplayed_frame s j
  refine .of_eq hl ?_ ?_ (fun q => ?_) fun i => by rw [hj]
  all_goals
    unfold countReplayed
    dsimp only
    split_ifs <;> simp

theorem Ordered.endReplay (h : Ordered s) (hl : Linked s) : Ordered (endReplay s) := by
  have hc : ∀ jobs : List JobRef, ∀ s : Mbd, Edits 0 s (jobs.foldl countReplayed s) := by
    intro jobs
    induction jobs with
    | nil => exact .refl
    | cons j jobs ih => exact fun s => (countReplayed_edits s j).then (ih _)
  have hnd : ∀ l, ((OpenLava.endReplay s).lists l).entries.Nodup := fun l => by
    rw [(endReplay_frame s).2.2.1]
    exact hl.nodup l
  unfold OpenLava.endReplay at hnd ⊢
  dsimp only at hnd ⊢
  have h := h.edits (hc ([ListNo.SJL, .MJL, .PJL].flatMap fun l => (s.lists l).entries.reverse) s)
  set s1 := ([ListNo.SJL, .MJL, .PJL].flatMap fun l => (s.lists l).entries.reverse).foldl countReplayed s
  refine ⟨h.ascending, fun _ l hl q => ?_, fun hr => absurd hr (by simp [schedulerInit])⟩
  -- the queue keeps its old ends when it has no jobs, and then these are null
  have hold : segment (jobKey s1) (s1.queues q).priority (s1.lists l).entries = [] → s1.ends l q = {} := fun hn => by
    cases hr : s1.replay with
    | true => exact h.idle hr l hl q
    | false =>
      rw [h.ends hr l hl q, endsOf, endsAt, hn]
      rfl
  exact (if_neg hl).trans (setQueueFirstAndLastJob_eq (s := { s1 with replay := false }) (h.ascending l hl) (hnd l) hold)

theorem Ordered.step (op : Op) (s : Mbd) (h : Linked s ∧ Ordered s) (hop : Orderly op s) :
    Linked (OpenLava.step C op s) ∧ Ordered (OpenLava.step C op s) := by
  refine ⟨Linked.step op s h.1 hop.1, ?_⟩
  by_cases he : op = .endReplay
  · subst he
    exact h.2.endReplay h.1
  · exact h.2.edits (h.1.stepEdits h.2.ascending hop he)

theorem Mbd.Initial.ordered (h : s.Initial) (he : ∀ l q, s.ends l q = {}) : Ordered s := by
  refine ⟨fun l _ => ?_, fun _ l _ q => ?_, fun _ l _ q => he l q⟩
  · rw [h.lists]
    exact Pairwise.nil
  · rw [he, endsOf, h.lists]
    rfl

/-- Over every run the jobs of a priority are adjacent, and a queue knows their ends after the
replay. -/
theorem queue_ends_of_run (C : Config) (s₀ : Mbd) (h₀ : s₀.Initial) (hends : ∀ l q, s₀.ends l q = {}) (ops : List Op)
    (hops : Meets (step C) Orderly ops s₀) (l : ListNo) (hl : l ≠ .FJL) (q : QRef) : let s := run (step C) ops s₀
    let prio := fun j => (s.queues (s.jobs j).qPtr).priority
    ∃ below jobs above, (s.lists l).entries = below ++ jobs ++ above ∧ (∀ j ∈ below, prio j < (s.queues q).priority) ∧
      (∀ j ∈ jobs, prio j = (s.queues q).priority) ∧ (∀ j ∈ above, (s.queues q).priority < prio j) ∧
      (s.replay = false → s.ends l q = { firstJob := jobs.getLast?, lastJob := jobs.head? } ∧
        setQueueFirstAndLastJob s q l {} = s.ends l q ∧ setQueueFirstAndLastJob s q l (s.ends l q) = s.ends l q) ∧
      (s.replay = true → s.ends l q = {}) := by
  intro s prio
  obtain ⟨hlin, ho⟩ : Linked s ∧ Ordered s := run_invariant Ordered.step ops s₀ ⟨h₀.linked, h₀.ordered hends⟩ hops
  have ha := ho.ascending l hl
  obtain ⟨below, above, heq, hb, habo⟩ := ascending_parts ha (s.queues q).priority
  refine ⟨below, _, above, heq, hb, fun j hj => ?_, habo, fun hr => ?_, fun hr => ho.idle hr l hl q⟩
  · exact of_decide_eq_true (mem_filter.mp hj).2
  · have hq := ho.ends hr l hl q
    refine ⟨hq, ?_, ?_⟩
    · rw [hq, setQueueFirstAndLastJob_eq ha (hlin.nodup l) fun _ => rfl]
    · rw [setQueueFirstAndLastJob_eq ha (hlin.nodup l) fun hn => ?_, hq]
      rw [hq, endsOf, endsAt, hn]
      rfl

/-- Two queues of one priority know the jobs of both, also after a move and a start. -/
theorem queue_ends_of_run_move :
    let ops : List Op := [.newJob 1 true 0 1 0 { queue := 0 }, .newJob 2 true 1 2 0 { queue := 1 }, .endReplay,
      .newJob 3 false 2 3 0 { queue := 0 }, .moveAJob 2 { opCode := .TO_TOP, position := 1, privileged := true },
      .allocHosts 1 1 [(0, 1)], .jStatusChange 4 1 .RUN 0]
    let s := run (step {}) ops .blank
    Meets (step {}) Orderly ops .blank ∧ setQueueFirstAndLastJob s 1 .PJL {} = s.ends .PJL 1 ∧
      s.ends .PJL 1 = { firstJob := some 2, lastJob := some 0 } := by
  intro ops s
  have ho : Meets (step {}) Orderly ops .blank := by decide
  obtain ⟨_, _, _, -, -, -, -, he, -⟩ :=
    queue_ends_of_run {} .blank Mbd.blank_initial (fun _ _ => rfl) ops ho .PJL (by decide) 1
  exact ⟨ho, (he (by decide)).2.1, by decide⟩

/-- Sent from RUN to PSUSP, a job leaves `SJL` with the observers of `PJL`. -/
theorem queue_ends_run_to_psusp :
    let s := run (step {}) [.endReplay, .newJob 1 false 0 1 0 { queue := 0 }, .allocHosts 0 1 [(0, 1)],
      .jStatusChange 2 0 .RUN 0, .jStatusChange 3 0 .PSUSP 0, .jStatusChange 4 0 .EXIT 0] .blank
    s.replay = false ∧ (s.lists .SJL).entries = [] ∧ s.ends .SJL 0 = { firstJob := some 0, lastJob := some 0 } := by
  decide

theorem Mbd.Initial.uncounted (h : s.Initial) (hn : ∀ l, (s.lists l).numEnts = 0) (l : ListNo) :
    OpenLava.uncounted s l = 0 := by simp [OpenLava.uncounted, h.lists, hn]

theorem Ordered.stepUncounted (op : Op) (s : Mbd) (h : Linked s ∧ Ordered s) (hop : Orderly op s) (l : ListNo) :
    OpenLava.uncounted (OpenLava.step C op s) l =
      OpenLava.uncounted s l + if FinishesJob op s ∧ l = .FJL then 1 else 0 := by
  by_cases he : op = .endReplay
  · subst he
    have hl : (OpenLava.step C .endReplay s).lists = s.lists := (endReplay_frame s).2.2.1
    simp [OpenLava.uncounted, hl, FinishesJob]
  · rw [(h.1.stepEdits h.2.ascending hop he).uncounted l]
    split_ifs <;> simp_all

/-- The lists of unfinished jobs have the lengths known, and `FJL` has iff no job has finished. -/
theorem list_lengths_of_run (C : Config) (s₀ : Mbd) (h₀ : s₀.Initial) (hends : ∀ l q, s₀.ends l q = {})
    (hnum : ∀ l, (s₀.lists l).numEnts = 0) (ops : List Op) (hops : Meets (step C) Orderly ops s₀) :
    let s := run (step C) ops s₀
    (∀ l, l ≠ .FJL → (s.lists l).numEnts = (s.lists l).entries.length) ∧
      ((s.lists .FJL).numEnts = (s.lists .FJL).entries.length ↔
        Meets (step C) (fun op s => ¬ FinishesJob op s) ops s₀) := by
  intro s
  have hi := And.intro h₀.linked (h₀.ordered hends)
  have ho : ∀ l, l ≠ .FJL → uncounted s l = 0 := fun l hl =>
    (run_invariant (I := fun s => (Linked s ∧ Ordered s) ∧ uncounted s l = 0)
      (fun op s h hop => ⟨Ordered.step op s h.1 hop, by rw [Ordered.stepUncounted op s h.1 hop, h.2]; simp [hl]⟩)
      ops s₀ ⟨hi, h₀.uncounted hnum l⟩ hops).2
  have hf : uncounted s .FJL = occurs (step C) FinishesJob ops s₀ := by
    have hc := run_count (p := FinishesJob) (f := fun s => uncounted s .FJL) Ordered.step
      (fun op s h hop => by simpa using Ordered.stepUncounted (C := C) op s h hop .FJL) ops s₀ hi hops
    rwa [h₀.uncounted hnum, zero_add] at hc
  refine ⟨fun l hl => ?_, ?_⟩
  · have := ho l hl
    unfold uncounted at this
    omega
  · rw [← occurs_eq_zero]
    unfold uncounted at hf
    omega

/-- Two jobs that start and are suspended: three lists are in use. -/
theorem list_lengths_of_run_start :
    let ops : List Op := [.newJob 1 true 0 1 0 { queue := 0 }, .newJob 2 true 1 2 0 { queue := 1 }, .endReplay,
      .allocHosts 1 1 [(0, 1)], .jStatusChange 4 1 .RUN 0, .jStatusChange 5 1 .SSUSP 0]
    let s := run (step {}) ops .blank
    Meets (step {}) Orderly ops .blank ∧ (s.lists .SJL).numEnts = (s.lists .SJL).entries.length ∧
      (s.lists .FJL).numEnts = (s.lists .FJL).entries.length := by
  intro ops s
  have ho : Meets (step {}) Orderly ops .blank := by decide
  have hl := list_lengths_of_run {} .blank Mbd.blank_initial (fun _ _ => rfl) (fun _ => rfl) ops ho
  exact ⟨ho, hl.1 .SJL (by decide), hl.2.mpr (by decide)⟩

/-- A job that finishes is linked in `FJL` without being counted, and its removal counts it out. -/
theorem list_lengths_finish :
    let ops : List Op := [.newJob 1 false 0 1 0 { queue := 0 }, .allocHosts 0 1 [(0, 1)], .jStatusChange 2 0 .RUN 0,
      .jStatusChange 3 0 .DONE 0]
    let s := run (step {}) ops .blank
    ((s.lists .FJL).entries = [0] ∧ (s.lists .FJL).numEnts = 0) ∧
      ((step {} (.removeJob 0) s).lists .FJL).entries = [] ∧
      ((step {} (.removeJob 0) s).lists .FJL).numEnts = -1 := by
  decide

end OpenLava

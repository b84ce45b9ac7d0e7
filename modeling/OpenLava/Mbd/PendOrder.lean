import OpenLava.Mbd.Links

/-!
# The order of the pending list

The scheduler reads a list of pending jobs from its back; `inPendJobList` scans it from the front.
-/

namespace OpenLava

open List

section

variable {R : JobRef → JobRef → Prop} {scan : JobRef → ScanStep} {same : JobRef → Bool} {j : JobRef} {entries : List JobRef}

structure ScansBy (R : JobRef → JobRef → Prop) (scan : JobRef → ScanStep) (same : JobRef → Bool) (j : JobRef)
    (entries : List JobRef) : Prop where
  stop : ∀ i ∈ entries, scan i = .stop → R j i
  go : ∀ i ∈ entries, scan i ≠ .stop → R i j
  segment : ∀ i ∈ entries, ∀ next ∈ entries, scan i = .pass → same next = false → R i next → R j next

theorem ScansBy.tail {i : JobRef} (h : ScansBy R scan same j (i :: entries)) : ScansBy R scan same j entries where
  stop := fun i' hi' => h.stop i' (mem_cons_of_mem _ hi')
  go := fun i' hi' => h.go i' (mem_cons_of_mem _ hi')
  segment := fun i' hi' next hn => h.segment i' (mem_cons_of_mem _ hi') next (mem_cons_of_mem _ hn)

theorem pairwise_cons_of_head (ht : ∀ a b c, R a b → R b c → R a c) (hi : R j i)
    (hs : (i :: entries).Pairwise R) : (j :: i :: entries).Pairwise R := by
  refine pairwise_cons.mpr ⟨fun b hb => ?_, hs⟩
  rcases mem_cons.mp hb with rfl | hb
  · exact hi
  · exact ht _ _ _ hi ((pairwise_cons.mp hs).1 b hb)

theorem pairwise_cons_insertIdx (hi : R i j) (ha : ∀ b ∈ entries, R i b)
    (hs : (entries.insertIdx k j).Pairwise R) : (i :: entries.insertIdx k j).Pairwise R := by
  refine pairwise_cons.mpr ⟨fun b hb => ?_, hs⟩
  rcases eq_or_mem_of_mem_insertIdx hb with rfl | hb
  · exact hi
  · exact ha b hb

theorem pendIndex_sorted (ht : ∀ a b c, R a b → R b c → R a c) (h : ScansBy R scan same j entries)
    (hs : entries.Pairwise R) : (entries.insertIdx (pendIndex scan same entries) j).Pairwise R := by
  induction entries with
  | nil => simp [pendIndex]
  | cons i rest ih =>
    obtain ⟨ha, hr⟩ := pairwise_cons.mp hs
    have hgo : scan i ≠ .stop → ((i :: rest).insertIdx (pendIndex scan same rest + 1) j).Pairwise R := fun hne =>
      pairwise_cons_insertIdx (h.go i mem_cons_self hne) ha (ih h.tail hr)
    unfold pendIndex
    cases hc : scan i with
    | stop => exact pairwise_cons_of_head ht (h.stop i mem_cons_self hc) hs
    | skip => exact hgo (by simp [hc])
    | pass =>
      have hij : R i j := h.go i mem_cons_self (by simp [hc])
      cases rest with
      | nil => exact pairwise_cons_insertIdx (k := 0) hij ha (pairwise_singleton R j)
      | cons next rest =>
        dsimp only
        split_ifs with he
        · have hn : R j next := h.segment i mem_cons_self next (by simp) hc (by simpa using he.2)
            (ha next mem_cons_self)
          exact pairwise_cons_insertIdx (k := 0) hij ha (pairwise_cons_of_head ht hn hr)
        · exact hgo (by simp [hc])

end

section

variable {s : Mbd} {i j k : JobRef}

/-- By the priority of the queue, that of the job, the submission time and the id. -/
def Before (s : Mbd) (a b : JobRef) : Prop :=
  let p := fun i => (s.queues (s.jobs i).qPtr).priority
  let time := fun i => (s.jobs i).jobBill.submitTime
  p b < p a ∨ p a = p b ∧ ((s.jobs b).jobPriority < (s.jobs a).jobPriority ∨
    (s.jobs a).jobPriority = (s.jobs b).jobPriority ∧ (time a < time b ∨ time a = time b ∧ (s.jobs a).jobId < (s.jobs b).jobId))

theorem Before.trans (h : Before s i j) (h' : Before s j k) : Before s i k := by
  unfold Before at *
  omega

theorem before_congr (hq : s'.queues = s.queues) (hj : ∀ i, (s'.jobs i).qPtr = (s.jobs i).qPtr ∧
    (s'.jobs i).jobPriority = (s.jobs i).jobPriority ∧ (s'.jobs i).jobBill = (s.jobs i).jobBill ∧
    (s'.jobs i).jobId = (s.jobs i).jobId) (a b : JobRef) : Before s' a b ↔ Before s a b := by
  obtain ⟨hqa, hpa, hba, hia⟩ := hj a
  obtain ⟨hqb, hpb, hbb, hib⟩ := hj b
  unfold Before
  simp only [hq, hqa, hpa, hba, hia, hqb, hpb, hbb, hib]

structure ByIds (s : Mbd) (jobs : List JobRef) : Prop where
  pos : ∀ i ∈ jobs, 0 < (s.jobs i).jobId
  distinct : jobs.Pairwise fun i i' => (s.jobs i).jobId ≠ (s.jobs i').jobId

theorem pendScan_stop_iff (hC : C.arraySchedOrder = false) (ha : (s.queues (s.jobs j).qPtr).interactiveAhead = false)
    (hi : 0 < (s.jobs i).jobId) (hj : 0 < (s.jobs j).jobId) :
    pendScan C s (s.jobs j).jobBill.submitTime (s.jobs j) (s.jobs i) = .stop ↔ Before s i j := by
  unfold pendScan Before
  grind

theorem before_of_not (h : ¬ Before s i j) (hne : (s.jobs i).jobId ≠ (s.jobs j).jobId) : Before s j i := by
  unfold Before at *
  omega

theorem before_of_segment (hi : (s.queues (s.jobs i).qPtr).priority = (s.queues (s.jobs j).qPtr).priority)
    (hk : jobsOnSameSegment s j k = false) (h : Before s k i) : Before s k j := by
  simp only [jobsOnSameSegment, Bool.or_eq_false_iff, decide_eq_false_iff_not] at hk
  unfold Before at *
  dsimp only at *
  omega

theorem pendScan_pass (h : pendScan C s time (s.jobs j) (s.jobs i) = .pass) :
    (s.queues (s.jobs i).qPtr).priority = (s.queues (s.jobs j).qPtr).priority := by
  unfold pendScan at h
  grind

theorem pendScan_scansBy (hC : C.arraySchedOrder = false) (ha : (s.queues (s.jobs j).qPtr).interactiveAhead = false)
    {entries : List JobRef} (hids : ByIds s (j :: entries)) :
    ScansBy (fun a b => Before s b a) (fun i => pendScan C s (s.jobs j).jobBill.submitTime (s.jobs j) (s.jobs i))
      (fun i => jobsOnSameSegment s j i) j entries where
  stop := fun i hi =>
    (pendScan_stop_iff hC ha (hids.pos i (mem_cons_of_mem _ hi)) (hids.pos j mem_cons_self)).mp
  go := fun i hi hne => by
    refine before_of_not (fun h => hne ?_) ((pairwise_cons.mp hids.distinct).1 i hi).symm
    exact (pendScan_stop_iff hC ha (hids.pos i (mem_cons_of_mem _ hi)) (hids.pos j mem_cons_self)).mpr h
  segment := fun i _ next _ hpass hn h => before_of_segment (pendScan_pass hpass) hn h

theorem inPendJobList_entries (C : Config) (s : Mbd) (j : JobRef) (l : ListNo) : let s' := inPendJobList C j l 0 s
    (s'.lists l).entries = (s.lists l).entries.insertIdx
      (pendIndex (fun i => pendScan C s' (s'.jobs j).jobBill.submitTime (s'.jobs j) (s'.jobs i))
        (fun i => jobsOnSameSegment s' j i) (s.lists l).entries) j := by
  have hj : (inPendJobList C j l 0 s).jobs j = { s.jobs j with sigDelRequeue := false } := by
    rw [inPendJobList_jobs, modJob_job]
  dsimp only
  rw [hj]
  simp only [inPendJobList, listInsertEntryBefore, Function.update_self]
  rfl

theorem inPendJobList_frame (C : Config) (s : Mbd) (j : JobRef) (l : ListNo) (i : JobRef) :
    ((inPendJobList C j l 0 s).jobs i).qPtr = (s.jobs i).qPtr ∧ ((inPendJobList C j l 0 s).jobs i).jobPriority =
    (s.jobs i).jobPriority ∧ ((inPendJobList C j l 0 s).jobs i).jobBill = (s.jobs i).jobBill ∧
    ((inPendJobList C j l 0 s).jobs i).jobId = (s.jobs i).jobId := by
  rw [inPendJobList_jobs, Mbd.modJob_jobs]
  by_cases hij : i = j
  · subst hij
    simp
  · simp [Function.update_of_ne hij]

theorem inPendJobList_before_iff (C : Config) (s : Mbd) (j : JobRef) (l : ListNo) (a b : JobRef) :
    Before (inPendJobList C j l 0 s) a b ↔ Before s a b :=
  before_congr (show (inPendJobList C j l 0 s).queues = s.queues from rfl) (inPendJobList_frame C s j l) a b

theorem ByIds.inPend {jobs : List JobRef} (h : ByIds s jobs) (C : Config) (j : JobRef) (l : ListNo) :
    ByIds (inPendJobList C j l 0 s) jobs where
  pos := fun i hi => by rw [(inPendJobList_frame C s j l i).2.2.2]; exact h.pos i hi
  distinct := h.distinct.imp fun {i i'} hne => by
    rw [(inPendJobList_frame C s j l i).2.2.2, (inPendJobList_frame C s j l i').2.2.2]
    exact hne

theorem ByIds.sublist {jobs jobs' : List JobRef} (h : ByIds s jobs) (hs : jobs'.Sublist jobs) : ByIds s jobs' where
  pos := fun i hi => h.pos i (hs.subset hi)
  distinct := h.distinct.sublist hs

theorem ByIds.perm {jobs jobs' : List JobRef} (h : ByIds s jobs) (hperm : jobs.Perm jobs') : ByIds s jobs' where
  pos := fun i hi => h.pos i (hperm.mem_iff.mpr hi)
  distinct := hperm.pairwise h.distinct fun hne => hne.symm

theorem inPendJobList_sorted_step (hC : C.arraySchedOrder = false)
    (ha : (s.queues (s.jobs j).qPtr).interactiveAhead = false) (hi : ByIds s (j :: (s.lists l).entries))
    (hs : (s.lists l).entries.Pairwise fun a b => Before s b a) :
    ((inPendJobList C j l 0 s).lists l).entries.Pairwise fun a b => Before (inPendJobList C j l 0 s) b a := by
  rw [inPendJobList_entries]
  refine pendIndex_sorted (fun a b c hab hbc => hbc.trans hab) (pendScan_scansBy hC ?_ (hi.inPend C j l)) ?_
  · rw [(inPendJobList_frame C s j l j).1]
    exact ha
  · exact hs.imp fun {a b} h => (inPendJobList_before_iff C s j l b a).mpr h

/-- Whatever is inserted in whatever order, the list is sorted, read from its back. -/
theorem inPendJobList_sorted (hC : C.arraySchedOrder = false) (jobs : List JobRef)
    (hahead : ∀ j ∈ jobs, (s.queues (s.jobs j).qPtr).interactiveAhead = false)
    (hids : ByIds s (jobs ++ (s.lists l).entries)) (hsorted : (s.lists l).entries.reverse.Pairwise (Before s)) :
    let s' := jobs.foldl (fun s j => inPendJobList C j l 0 s) s
    (s'.lists l).entries.reverse.Pairwise (Before s') := by
  induction jobs generalizing s with
  | nil => exact hsorted
  | cons j jobs ih =>
    have hj : ByIds s (j :: (s.lists l).entries) := hids.sublist (by simp)
    have hs := inPendJobList_sorted_step hC (hahead j mem_cons_self) hj (pairwise_reverse.mp hsorted)
    refine ih (fun i hi => ?_) ?_ (pairwise_reverse.mpr hs)
    · rw [(inPendJobList_frame C s j l i).1]
      exact hahead i (mem_cons_of_mem _ hi)
    · refine (hids.inPend C j l).perm ?_
      rw [inPendJobList_entries]
      exact perm_middle.symm.trans ((perm_insertIdx j _ (pendIndex_le _ _ _)).symm.append_left jobs)

/-- Jobs 0, 1, 2, ... with the ids from 101 on, in two queues in turn. -/
def inTwoQueues : Mbd where
  jobs := fun i => initJData (101 + i) 0 { queue := i % 2, submitTime := 5 }
  queues := fun q => { priority := 30 + q }
  users := fun _ => {}
  hosts := fun _ => { maxJobs := 1 }

theorem inPendJobList_sorted_inTwoQueues : let s' := [2, 1, 0, 3].foldl (fun s j => inPendJobList {} j .PJL 0 s) inTwoQueues
    (s'.lists .PJL).entries.reverse.Pairwise (Before s') :=
  inPendJobList_sorted rfl [2, 1, 0, 3] (by decide)
    ⟨show ∀ i ∈ [2, 1, 0, 3], 0 < (inTwoQueues.jobs i).jobId by decide,
      show [2, 1, 0, 3].Pairwise fun i i' => (inTwoQueues.jobs i).jobId ≠ (inTwoQueues.jobs i').jobId by decide⟩
    .nil

end

end OpenLava

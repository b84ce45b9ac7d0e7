import OpenLava.Mbd.StatusJob

/-!
# Hosts that cease to answer

`hStatChange` for a host that becomes unreachable, beside the one for a host that answers again. Both search the started
jobs until they have found as many as the host has slots in use.
-/

namespace OpenLava

open Function List

/-- The loop of `hostJobs` for `OK_UNREACH`, and for `UNREACH_OK` if not `unkwn`. -/
def hostJobs (unkwn : Bool) (hp : HRef) (numJobs : Int) : List JobRef → Int → Mbd → Mbd
  | [], _, s => s
  | j :: jobs, numFound, s =>
    if numJobs ≤ numFound then s
    else if (s.jobs j).hPtr.head? ≠ some hp then hostJobs unkwn hp numJobs jobs numFound s
    else hostJobs unkwn hp numJobs jobs (numFound + 1)
      (if (s.jobs j).jStatus.mask.unkwn = unkwn then s else s.modJob j (·.withUnkwn unkwn))

/-- `hStatChange` to `HOST_STAT_UNREACH`; `refused` if `lsberrno` is `LSBE_CONN_REFUSED`. -/
def hStatChangeUnreach (refused : Bool) (hp : HRef) (s : StatusState) : StatusState :=
  let sbd := s.sbds hp
  let count := (s.mbd.hosts hp).count
  let sbdFail := sbd.sbdFail + if refused then 2 else 1
  if sbd.unreach ∨ sbd.unavail then s
  else if sbdFail > 1 then
    { s with
      mbd := hostJobs true hp (count .numRUN + count .numSSUSP + count .numUSUSP) (s.mbd.lists .SJL).entries.reverse 0 s.mbd
      sbds := update s.sbds hp { sbd with unreach := true, sbdFail } }
  else { s with sbds := update s.sbds hp { sbd with sbdFail } }

/-- The bit `UNKWN` of the started jobs of the host is set so, and nothing else. -/
def Marks (hp : HRef) (unkwn : Bool) (s s' : Mbd) : Prop :=
  ∀ j, s'.jobs j =
    if j ∈ (s.lists .SJL).entries ∧ (s.jobs j).hPtr.head? = some hp then (s.jobs j).withUnkwn unkwn else s.jobs j

theorem hostJobsUp_eq (hp : HRef) (numJobs : Int) (jobs : List JobRef) (numFound : Int) (s : Mbd) :
    hostJobsUp hp numJobs jobs numFound s = hostJobs false hp numJobs jobs numFound s := by
  induction jobs generalizing numFound s with
  | nil => rfl
  | cons j jobs ih =>
    rw [hostJobsUp, hostJobs, ih, ih]
    cases (s.jobs j).jStatus.mask.unkwn <;> rfl

variable {hp : HRef} {numJobs : Int}

theorem mark_jobs (unkwn : Bool) (i : JobRef) (s : Mbd) :
    (if (s.jobs i).jStatus.mask.unkwn = unkwn then s else s.modJob i (·.withUnkwn unkwn)).jobs =
      update s.jobs i ((s.jobs i).withUnkwn unkwn) := by
  split_ifs with h
  · subst h
    exact (update_eq_self i s.jobs).symm
  · rfl

theorem hostJobs_jobs (unkwn : Bool) {jobs : List JobRef} {numFound : Int} {s : Mbd}
    (h : numFound + jobs.countP (fun j => (s.jobs j).hPtr.head? = some hp) ≤ numJobs) (j : JobRef) :
    (hostJobs unkwn hp numJobs jobs numFound s).jobs j =
      if j ∈ jobs ∧ (s.jobs j).hPtr.head? = some hp then (s.jobs j).withUnkwn unkwn else s.jobs j := by
  induction jobs generalizing numFound s with
  | nil => simp [hostJobs]
  | cons i jobs ih =>
    unfold hostJobs
    by_cases ha : numJobs ≤ numFound
    · -- none of the host is left
      have hn : (i :: jobs).countP (fun j => (s.jobs j).hPtr.head? = some hp) = 0 := by omega
      rw [countP_eq_zero] at hn
      rw [if_pos ha, if_neg fun hj => hn j hj.1 (decide_eq_true hj.2)]
    rw [if_neg ha]
    rw [countP_cons] at h
    by_cases hi : (s.jobs i).hPtr.head? = some hp
    · rw [if_neg (not_not.mpr hi)]
      rw [if_pos (decide_eq_true hi)] at h
      have hmark := mark_jobs unkwn i s
      generalize (if (s.jobs i).jStatus.mask.unkwn = unkwn then s else s.modJob i (·.withUnkwn unkwn)) = s1 at hmark ⊢
      have hs : ∀ x, (s1.jobs x).hPtr = (s.jobs x).hPtr := by
        intro x
        rw [hmark, update_apply]
        split_ifs with hx
        · rw [hx]
          rfl
        · rfl
      rw [ih (by simp only [hs]; omega), hs, hmark, update_apply]
      by_cases hx : j = i
      · subst hx
        rw [if_pos rfl, if_pos (⟨mem_cons_self, hi⟩ : _ ∧ _)]
        split_ifs <;> rfl
      · simp [hx]
    · rw [if_pos hi, ih (by omega)]
      have hne : (s.jobs j).hPtr.head? = some hp → j ≠ i := by
        rintro hj rfl
        exact hi hj
      exact if_congr (by grind) rfl rfl

theorem countP_le_slots (s : Mbd) (jobs : List JobRef) :
    (jobs.countP (fun j => (s.jobs j).hPtr.head? = some hp) : Int) ≤ (jobs.map fun j => ((s.jobs j).hPtr.count hp : Int)).sum := by
  induction jobs with
  | nil => rfl
  | cons j jobs ih =>
    rw [countP_cons, map_cons, sum_cons]
    have hs : (s.jobs j).hPtr.head? = some hp → 0 < (s.jobs j).hPtr.count hp := fun h =>
      count_pos_iff.mpr (mem_of_mem_head? h)
    split_ifs with hj
    · have := hs (of_decide_eq_true hj)
      omega
    · omega

/-- A host becomes unreachable, and answers again. -/
theorem hStatChange_marks (hp : HRef) (s : StatusState)
    (hslots : (s.mbd.hosts hp).count .numRUN + (s.mbd.hosts hp).count .numSSUSP + (s.mbd.hosts hp).count .numUSUSP =
      ((s.mbd.lists .SJL).entries.map fun j => ((s.mbd.jobs j).hPtr.count hp : Int)).sum) :
    (∀ refused, (s.sbds hp).unreach = false → ((hStatChangeUnreach refused hp s).sbds hp).unreach = true →
      Marks hp true s.mbd (hStatChangeUnreach refused hp s).mbd) ∧
    ((s.sbds hp).unreach = true → ((hStatChange hp s).sbds hp).unreach = false ∧
      Marks hp false s.mbd (hStatChange hp s).mbd) := by
  have hmar (unkwn : Bool) : Marks hp unkwn s.mbd (hostJobs unkwn hp ((s.mbd.hosts hp).count .numRUN +
      (s.mbd.hosts hp).count .numSSUSP + (s.mbd.hosts hp).count .numUSUSP) (s.mbd.lists .SJL).entries.reverse 0 s.mbd) := by
    intro j
    rw [hostJobs_jobs unkwn (by rw [hslots, countP_reverse]; simpa using countP_le_slots s.mbd _) j]
    simp only [mem_reverse]
  constructor
  · intro refused hr
    unfold hStatChangeUnreach
    dsimp only
    generalize (s.sbds hp).sbdFail + (if refused then 2 else 1) = sbdFail
    split_ifs with hd hf
    · exact fun h => absurd h (by simp [hr])
    · exact fun _ => hmar true
    · exact fun h => absurd h (by simp [hr])
  · intro hu
    unfold hStatChange
    simp only [hu, if_true, hostJobsUp_eq]
    exact ⟨by simp, hmar false⟩

def countedJob : StatusState :=
  { runningJob with
    mbd := { runningJob.mbd with hosts := fun _ => { maxJobs := 4, count := fun c => if c = .numRUN then 1 else 0 } } }

theorem hStatChange_marks_refused : ((hStatChangeUnreach true 0 countedJob).mbd.jobs 0).jStatus.mask.unkwn = true := by
  rw [(hStatChange_marks 0 countedJob (by decide)).1 true rfl rfl 0]
  rfl

end OpenLava

import OpenLava.Mbd.SlotRuns
import OpenLava.Mbd.Touches

/-!
# Records of reservations

The reservations are written down in more places than the counters: the host accounts of the queues have
`numNonPrmptRsv`, and the hosts have lists of proxies. What the operations do to such a record, to which a job
contributes by its reservation, its hosts and its status, is proved here for any of them.
-/

namespace OpenLava

open Ledger Mask Run

/-- A record of reservations, the share of a job, and whether it is wrong for held jobs. -/
structure Holding (A : Type) where
  book : Mbd → A → Int
  share : JobRef → JData → A → Int
  mine : JobRef → A → Prop
  strict : Bool
  book_congr : ∀ {s s' : Mbd}, (∀ q, (s'.queues q).hAcct = (s.queues q).hAcct) →
    (∀ h, (s'.hosts h).pxyRsvJL = (s.hosts h).pxyRsvJL) → book s' = book s
  book_post : ∀ {jp : JData} {p : Posting} {s : Mbd}, p.acct .numRESERVE = 0 → book (post jp p s) = book s
  share_unreserved : ∀ j {jp : JData}, jp.jStatus.reserve = false → share j jp = 0
  share_idle : ∀ j {jp : JData}, jp.jStatus.mask.isPend = false → jp.jStatus.mask.isStart = false → share j jp = 0
  share_same : ∀ j {jp jp' : JData}, jp'.qPtr = jp.qPtr → jp'.hPtr = jp.hPtr →
    jp'.jStatus.reserve = jp.jStatus.reserve → jp'.jStatus.mask.isPend = jp.jStatus.mask.isPend →
    jp'.jStatus.mask.isStart = jp.jStatus.mask.isStart → share j jp' = share j jp
  share_mine : ∀ {i j} {jp : JData} {a : A}, mine j a → i ≠ j → share i jp a = 0
  setReserve : ∀ {s : Mbd} {j : JobRef} {ph : Phase} (b : Bool), Kept s → j ∈ s.live → (s.jobs j).phase = some ph →
    Reservable ph → (s.jobs j).jStatus.reserve = !b → (strict = true → (s.jobs j).jStatus.mask.psusp = false) →
    (∀ a, mine j a → book s a = share j (s.jobs j) a) → ∀ a,
    book (updResCounters j (s.jobs j) { (s.jobs j).jStatus with reserve := b } s) a - share j ((s.jobs j).withReserve b) a =
      book s a - share j (s.jobs j) a

namespace Holding

variable {A : Type} (H : Holding A)

/-- What the record holds for the jobs other than `j`. -/
def other (j : JobRef) (s : Mbd) (a : A) : Int := H.book s a - H.share j (s.jobs j) a

def Clear (j : JobRef) (s : Mbd) : Prop := ∀ a, H.mine j a → H.other j s a = 0

def Unheld (jp : JData) : Prop := H.strict = true → jp.jStatus.reserve = true → jp.jStatus.mask.psusp = false

variable {H}

theorem other_congr (hb : H.book s' = H.book s) (hs : H.share j (s'.jobs j) = H.share j (s.jobs j)) :
    H.other j s' = H.other j s := by
  funext a
  rw [other, other, hb, hs]

theorem Clear.of_eq (h : H.Clear j s) (heq : H.other j s' = H.other j s) : H.Clear j s' := fun a ha => heq ▸ h a ha

theorem Unheld.of_unreserved (h : jp.jStatus.reserve = false) : H.Unheld jp := fun _ hr => by simp [h] at hr

theorem share_finished (h : jp.phase = some .finished) : H.share j jp = 0 := by
  have hr := phase_reads (m := jp.jStatus.mask) h
  exact H.share_idle j hr.isPend hr.isStart

theorem book_frame (hq : s'.queues = s.queues) (hh : s'.hosts = s.hosts) : H.book s' = H.book s :=
  H.book_congr (fun q => by rw [hq]) fun h => by rw [hh]

theorem book_after (h : H.book t = H.book s) (hq : s'.queues = t.queues) (hh : s'.hosts = t.hosts) :
    H.book s' = H.book s := (book_frame hq hh).trans h

theorem book_modJob (f : JData → JData) : H.book (s.modJob j f) = H.book s := book_frame rfl rfl

theorem book_addDispJobs (l : List HRef) (d : Int) : H.book (addDispJobs l d s) = H.book s := by
  refine H.book_congr (fun _ => rfl) fun h => ?_
  exact updateEach_field HData.pxyRsvJL (fun _ hp => { hp with numDispJobs := hp.numDispJobs + d }) (fun _ _ => rfl) l
    s.hosts h

theorem updCountersRow_reserve (h : updCountersRow num numReq old new = some p) : p.acct .numRESERVE = 0 := by
  -- `split` is slow on the whole table
  have hr : ∀ p ∈ updCountersRow num numReq old new, p.acct .numRESERVE = 0 := by
    repeat'
      refine iteInduction (motive := fun row : Option Posting => ∀ p ∈ row, p.acct .numRESERVE = 0)
        (fun _ => ?_) fun _ => ?_
    all_goals rintro p ⟨⟩
    all_goals rfl
  exact hr p h

theorem book_updCounters (old : Mask) : H.book (updCounters jp old s) = H.book s := by
  unfold updCounters
  dsimp only
  split_ifs
  · rfl
  · rfl
  · rfl
  · split
    · rfl
    · rename_i p hr
      exact H.book_post (updCountersRow_reserve hr)

theorem book_countPending (jp : JData) (s : Mbd) : H.book (countPending jp s) = H.book s := by
  unfold countPending
  split_ifs
  · rfl
  · exact H.book_post rfl

theorem book_inPendOrMigList (t t' : Int) : H.book (inPendOrMigList C j t t' s) = H.book s := by
  unfold inPendOrMigList
  split_ifs <;> exact book_frame rfl rfl

theorem book_moveJob (now : Int) (old : JStatus) (n : Mask) : H.book (moveJob C now j old n s) = H.book s := by
  unfold moveJob
  split_ifs
  · exact book_frame rfl rfl
  · exact book_frame rfl rfl
  · unfold moveToPend
    rw [book_modJob, book_inPendOrMigList]
    exact book_frame rfl rfl
  · exact book_frame rfl rfl
  · rfl

theorem book_setStatus (n : Mask) : H.book (setStatus j n s) = H.book s := by
  unfold setStatus
  split_ifs <;> exact book_frame rfl rfl

theorem book_countJob (logIt : Bool) (old n : Mask) : H.book (countJob C logIt j old n s) = H.book s := by
  unfold countJob
  split_ifs
  · exact book_updCounters _
  · exact book_frame rfl rfl
  · exact book_frame rfl rfl
  · rfl

theorem setReserve_other (h : Kept s) (hj : j ∈ s.live) (hph : (s.jobs j).phase = some ph) (hc : H.Clear j s) (b : Bool)
    (hb : (s.jobs j).jStatus.reserve = b ∨ Reservable ph)
    (hh : (s.jobs j).jStatus.reserve = b ∨ (H.strict = true → (s.jobs j).jStatus.mask.psusp = false)) :
    H.other j ((updResCounters j (s.jobs j) { (s.jobs j).jStatus with reserve := b } s).modJob j (·.withReserve b)) =
      H.other j s := by
  by_cases hs : (s.jobs j).jStatus.reserve = b
  · subst hs
    refine other_congr ?_ (by rw [modJob_job, updResCounters_jobs]; rfl)
    rw [book_modJob]
    unfold updResCounters
    split_ifs
    · rfl
    · rw [updResCountersRow_same _ _ _ hph]
  · have hf : (s.jobs j).jStatus.reserve = !b := by cases b <;> simp_all
    funext a
    rw [other, book_modJob, modJob_job, updResCounters_jobs]
    exact H.setReserve b h hj hph (hb.resolve_left hs) hf (hh.resolve_left hs)
      (fun a ha => by have := hc a ha; rw [other] at this; omega) a

theorem dropReserve_other (h : Kept s) (hj : j ∈ s.live) (hc : H.Clear j s) (hu : H.Unheld (s.jobs j)) :
    H.other j (dropReserve j s) = H.other j s := by
  obtain ⟨ph, hph⟩ := h.phase hj
  cases hr : (s.jobs j).jStatus.reserve with
  | false => exact setReserve_other h hj hph hc false (.inl hr) (.inl hr)
  | true =>
    refine setReserve_other h hj hph hc false (.inr ?_) (.inr fun hst => hu hst hr)
    have hfit := (h.fit j hj).reserve hr
    rw [hph] at hfit
    simp only [Option.some.injEq] at hfit
    tauto

theorem takeReserve_other (h : Kept s) (hj : j ∈ s.live) (hc : H.Clear j s) (hcan : (s.jobs j).CanReserve)
    (hu : H.strict = true → (s.jobs j).jStatus.mask.psusp = false) : H.other j (takeReserve j s) = H.other j s := by
  obtain ⟨ph, hph⟩ := h.phase hj
  refine setReserve_other h hj hph hc true (.inr ?_) (.inr hu)
  unfold JData.CanReserve at hcan
  rw [hph] at hcan
  simp only [Option.some.injEq] at hcan
  tauto

theorem freeReserveSlots_other (h : Kept s) (hj : j ∈ s.live) (hc : H.Clear j s) (hu : H.Unheld (s.jobs j)) :
    H.other j (freeReserveSlots j s) = H.other j s := by
  unfold freeReserveSlots
  split_ifs with hr
  · refine (other_congr ((book_modJob _).trans (book_addDispJobs _ _)) ?_).trans (dropReserve_other h hj hc hu)
    rw [H.share_unreserved, H.share_unreserved]
    · simp [dropReserve_jobs, JData.withReserve]
    · simp [addDispJobs, dropReserve_jobs, JData.withReserve]
  · rfl

theorem resetReserve_other (h : Kept s) (hj : j ∈ s.live) (hc : H.Clear j s) (hu : H.Unheld (s.jobs j)) (n : Mask) :
    H.other j (resetReserve j n s) = H.other j s := by
  unfold resetReserve
  by_cases hr : (s.jobs j).jStatus.reserve = true
  · rw [if_neg (not_not.mpr hr)]
    by_cases hf : (n.psusp ∨ n.isFinish) ∧ (s.jobs j).jStatus.mask.pend
    · simp only [if_pos hf]
      obtain ⟨ph, hph⟩ := h.phase hj
      have hread := phase_reads (m := (s.jobs j).jStatus.mask) hph
      have hpen : ph = .pending := by
        have := hread.isPend
        simpa [Mask.isPend, hf.2] using this
      have hs : (s.jobs j).jStatus.mask.isStart = false := by
        rw [hread.isStart, hpen]
        rfl
      have hjob := congrFun (freeReserveSlots_jobs j s hr) j
      rw [if_neg (by simp [hjob, JData.withReserve, hs])]
      refine (other_congr (book_modJob _) ?_).trans (freeReserveSlots_other h hj hc hu)
      rw [modJob_job]
      exact H.share_same j rfl rfl rfl rfl rfl
    · simp only [if_neg hf]
      split_ifs
      · exact dropReserve_other h hj hc hu
      · rfl
  · rw [if_pos hr]

end Holding

open Holding

/-- The record is the sum of the shares, and no held job reserves if that matters. -/
structure Holds {A : Type} (H : Holding A) (s : Mbd) : Prop where
  balanced : Balanced s.live (fun j => H.share j (s.jobs j)) (H.book s)
  unheld : ∀ j ∈ s.live, H.Unheld (s.jobs j)

variable {H : Holding A} {s s' : Mbd} {j : JobRef}

theorem Holds.clear (h : Holds H s) (hj : j ∈ s.live) : H.Clear j s := fun a ha => by
  rw [Holding.other, h.balanced a, total, Finset.sum_eq_single_of_mem j hj fun i _ hij => H.share_mine ha hij, sub_self]

theorem Holds.follow (h : Holds H s) (hj : j ∈ s.live) {r t : Bool} (ht : Touches r t j s s')
    (hf : H.other j s' = H.other j s) (hu : H.Unheld (s'.jobs j)) : Holds H s' where
  balanced := by
    rw [ht.live]
    have hpost := h.balanced.post hj (H.share j (s'.jobs j)) (fun a => by
      have := congrFun hf a
      simp only [Holding.other] at this
      omega : ∀ a, H.book s' a = H.book s a + (H.share j (s'.jobs j) a - H.share j (s.jobs j) a))
    refine hpost.congr fun i _ a => ?_
    by_cases hij : i = j
    · rw [hij, Function.update_self]
    · rw [Function.update_of_ne hij, ht.other i hij]
  unheld i hi := by
    by_cases hij : i = j
    · rwa [hij]
    · rw [ht.other i hij]
      exact h.unheld i (ht.live ▸ hi)

theorem Holds.same (h : Holds H s) (hb : H.book s' = H.book s) (hl : s.live ⊆ s'.live)
    (hold : ∀ i ∈ s.live, H.share i (s'.jobs i) = H.share i (s.jobs i) ∧ H.Unheld (s'.jobs i))
    (hn : ∀ i ∈ s'.live, i ∉ s.live → (s'.jobs i).jStatus.reserve = false) : Holds H s' where
  balanced a := by
    rw [hb, h.balanced a, total, total, ← Finset.sum_subset hl fun i hi hnot => by
      rw [H.share_unreserved i (hn i hi hnot)]
      rfl]
    exact Finset.sum_congr rfl fun i hi => by rw [(hold i hi).1]
  unheld i hi := by
    by_cases hin : i ∈ s.live
    · exact (hold i hin).2
    · exact .of_unreserved (hn i hi hin)

theorem Holds.modJob (h : Holds H s) (f : JData → JData) (hf : H.share j (f (s.jobs j)) = H.share j (s.jobs j))
    (hu : H.Unheld (s.jobs j) → H.Unheld (f (s.jobs j))) : Holds H (s.modJob j f) := by
  refine h.same (book_modJob f) (Finset.Subset.refl _) (fun i hi => ?_) fun i hi hn => absurd hi hn
  by_cases hij : i = j
  · subst hij
    rw [modJob_job]
    exact ⟨hf, hu (h.unheld i hi)⟩
  · rw [Mbd.modJob_jobs, Function.update_of_ne hij]
    exact ⟨rfl, h.unheld i hi⟩

theorem Holds.jStatusChange (hr : Holds H s) (h : Kept s) (hj : j ∈ s.live) (now : Int) (n : Mask) (eventTime : Int)
    (hok : StatusOk C (eventTime = 0) (s.jobs j) n)
    (hp : H.strict = true → (s.jobs j).jStatus.reserve = true → eventTime ≠ 0 → n.psusp = false) :
    Holds H (jStatusChange C now j n eventTime s) := by
  have ht := (Touches.refl true true j s).jStatusChange C now n eventTime
  unfold OpenLava.jStatusChange at ht ⊢
  by_cases hsame : n.known = (s.jobs j).jStatus.mask.known
  · simp only [if_pos hsame]
    exact hr
  obtain ⟨ha, hresOk, hf⟩ := hok.resolve_left hsame
  obtain ⟨s1, hs1, hk, hj1, hreset, hres⟩ := h.resetIfLogged hj hresOk
  have hu := hr.unheld j hj
  have hoth1 : H.other j s1 = H.other j s := by
    rw [← hs1]
    split_ifs
    · exact resetReserve_other h hj (hr.clear hj) hu n
    · rfl
  have hpsu : H.strict = true → (s1.jobs j).jStatus.reserve = true → n.psusp = false := by
    intro hst
    rw [← hs1]
    split_ifs with hl
    · intro hr1
      obtain ⟨hr0, hn⟩ := (h.resetReserve hj n).2.2.2 hr1
      have hpend : (s.jobs j).jStatus.mask.isPend := (hres (hs1 ▸ if_pos hl ▸ hr1)).1
      simp only [Mask.isPend, hu hst hr0, Bool.or_false] at hpend
      simp only [Releases, hpend, and_true, not_or] at hn
      simpa using hn.1.1
    · exact fun hr1 => hp hst hr1 hl
  simp only [if_neg hsame, hs1] at ht ⊢
  have hf1 : n.isFinish → FinishOk C (s.jobs j).phase (s1.jobs j) := by
    unfold FinishOk at hf ⊢
    rwa [hreset.newSub, hreset.jobBill, hreset.qPtr]
  obtain ⟨ho, hjob⟩ := moveJob_setStatus (C := C) now (s.jobs j).jStatus n hf1
  set s2 := moveJob C now j (s.jobs j).jStatus n (setStatus j n s1)
  set s3 := countJob C (eventTime = 0) j (s.jobs j).jStatus.mask n s2 with hs3
  have hjobs : s3.jobs j = s2.jobs j := by
    rw [hs3, countJob, if_pos (.inl (by simp [ho.replay, hk.replay])), updCounters_jobs]
  have hbook : H.book s3 = H.book s1 := by
    rw [hs3, book_countJob, book_moveJob, book_setStatus]
  obtain ⟨ph, hph⟩ := h.phase hj
  obtain ⟨ph', hph'⟩ := accounted_phase ha
  have hread := phase_reads (m := (s.jobs j).jStatus.mask) hph
  -- with a reservation the job was pending, and pends
  have hpen : (s1.jobs j).jStatus.reserve = true → ph = .pending ∧ ph' = .pending := fun hr1 => by
    obtain ⟨ho, hn⟩ := hres hr1
    rw [hread.isPend] at ho
    rw [(phase_reads hph').isPend] at hn
    exact ⟨of_decide_eq_true ho, of_decide_eq_true hn⟩
  have hres2 : (s2.jobs j).jStatus.reserve = (s1.jobs j).jStatus.reserve := hjob.reserve
  have hsha : H.share j (s2.jobs j) = H.share j (s1.jobs j) := by
    cases hr1 : (s1.jobs j).jStatus.reserve with
    | false => rw [H.share_unreserved j (hres2.trans hr1), H.share_unreserved j hr1]
    | true =>
      obtain ⟨rfl, rfl⟩ := hpen hr1
      have hmask : (s2.jobs j).jStatus.mask = n := hjob.mask
      refine H.share_same j hjob.qPtr hjob.hPtr hres2 ?_ ?_
      · rw [hmask, hreset.mask, hread.isPend, (phase_reads hph').isPend]
      · rw [hmask, hreset.mask, hread.isStart, (phase_reads hph').isStart]
  have hf : (s.jobs j).jStatus.mask.isStart = true → (s1.jobs j).jStatus.reserve = false := fun hs => by
    by_contra hr1
    rw [hread.isStart, (hpen (by simpa using hr1)).1] at hs
    simp at hs
  have hu : H.Unheld (s2.jobs j) := fun hst hr' => by
    rw [hjob.mask]
    exact hpsu hst (hres2 ▸ hr')
  by_cases hb : ¬ (n.isStart ∧ (s.jobs j).jStatus.mask.isPend) ∧ ¬ n.isFinish ∧ n.pend ∧ (s.jobs j).jStatus.mask.isStart
  · rw [if_pos hb] at ht ⊢
    have hr1 := hf hb.2.2.2
    refine hr.follow hj ht ((other_congr ((book_modJob _).trans hbook) ?_).trans hoth1) ?_
    · rw [modJob_job, hjobs, H.share_unreserved j hr1]
      exact H.share_unreserved j (hres2.trans hr1)
    · rw [modJob_job, hjobs]
      exact .of_unreserved (hres2.trans hr1)
  · rw [if_neg hb] at ht ⊢
    refine hr.follow hj ht ((other_congr hbook ?_).trans hoth1) ?_
    · rw [hjobs, hsha]
    · rw [hjobs]
      exact hu

theorem jStatusChange_hold_reserve (hm : (s.jobs j).jStatus = { mask := .PEND }) (now : Int) :
    ((jStatusChange C now j .PSUSP (-1) s).jobs j).jStatus.reserve = false := by
  have hset : ((setStatus j .PSUSP s).jobs j).jStatus.reserve = false := by
    rw [setStatus_job]
    unfold JData.clearTimes
    split_ifs <;> simp [JData.withMask, JStatus.setState, hm]
  have hmove : moveJob C now j (s.jobs j).jStatus .PSUSP (setStatus j .PSUSP s) = setStatus j .PSUSP s := rfl
  have hc : ∀ (logIt : Bool) (s' : Mbd), (countJob C logIt j Mask.PEND .PSUSP s').jobs = s'.jobs := by
    intro logIt s'
    unfold countJob
    split
    · exact updCounters_jobs ..
    · rw [if_neg (by decide)]
  unfold jStatusChange
  rw [if_neg (by rw [hm]; decide)]
  dsimp only
  rw [if_neg (show ¬ (-1 : Int) = 0 by decide), hmove, if_neg (fun hb => absurd hb.2.2.1 (by decide)), hm, hc]
  exact hset

theorem book_jStatusChange_unlogged (ht : eventTime ≠ 0) (now : Int) (n : Mask) :
    H.book (jStatusChange C now j n eventTime s) = H.book s := by
  have ha : H.book (countJob C (eventTime = 0) j (s.jobs j).jStatus.mask n
      (moveJob C now j (s.jobs j).jStatus n (setStatus j n s))) = H.book s := by
    rw [book_countJob, book_moveJob, book_setStatus]
  unfold jStatusChange
  simp only [if_neg ht]
  split_ifs
  · rfl
  · exact (book_modJob _).trans ha
  · exact ha

theorem Holds.handleNewJob (hr : Holds H s) (hj : j ∉ s.live) (now : Int) (fromLog : Bool) (jobId : Int) (u : URef)
    (bill : JobBill) : Holds H (handleNewJob C now fromLog j (initJData jobId u bill) s) := by
  unfold OpenLava.handleNewJob
  dsimp only
  set s0 : Mbd := { s.setJob j (initJData jobId u bill) with live := insert j s.live } with hs0
  have ht := ((Touches.refl true true j s0).inPendJobList C .PJL 0).putOntoTree .JOB
  have hbook : H.book (OpenLava.putOntoTree j .JOB (OpenLava.inPendJobList C j .PJL 0 s0)) = H.book s :=
    book_frame rfl rfl
  have hjob : ((OpenLava.putOntoTree j .JOB (OpenLava.inPendJobList C j .PJL 0 s0)).jobs j).jStatus = { mask := .PEND } := by
    rw [putOntoTree_job, inPendJobList_jobs, modJob_job, hs0, setJob_job]
    rfl
  set s1 := OpenLava.putOntoTree j .JOB (OpenLava.inPendJobList C j .PJL 0 s0)
  have ht2 := (ht.countPending (s1.jobs j)).setPriority C |>.ite (c := fromLog ∧ 0 < C.maxUserPriority) (ht.countPending (s1.jobs j))
  have hbook2 : H.book (if fromLog ∧ 0 < C.maxUserPriority then setPriority C j (countPending (s1.jobs j) s1)
      else countPending (s1.jobs j) s1) = H.book s := by
    rw [← hbook, ← book_countPending (s1.jobs j) s1]
    split_ifs
    · exact book_frame rfl rfl
    · rfl
  have hjob2 : ((if fromLog ∧ 0 < C.maxUserPriority then setPriority C j (countPending (s1.jobs j) s1)
      else countPending (s1.jobs j) s1).jobs j).jStatus = { mask := .PEND } := by
    split_ifs
    · simp [setPriority, inPendJobList_jobs, countPending_jobs, hjob]
    · rw [countPending_jobs, hjob]
  set s2 := if fromLog ∧ 0 < C.maxUserPriority then setPriority C j (countPending (s1.jobs j) s1)
      else countPending (s1.jobs j) s1
  -- whatever happens to the new job, it reserves nothing and nothing is posted
  have hc : ∀ s3 : Mbd, Touches true true j s0 s3 → H.book s3 = H.book s → (s3.jobs j).jStatus.reserve = false →
      Holds H s3 := by
    intro s3 ht3 hb3 hr3
    refine hr.same hb3 (by rw [ht3.live]; exact Finset.subset_insert j s.live) (fun i hi => ?_) fun i hi hn => ?_
    · have hij : i ≠ j := by rintro rfl; exact hj hi
      rw [ht3.other i hij, show s0.jobs i = s.jobs i from setJob_other s j _ i hij]
      exact ⟨rfl, hr.unheld i hi⟩
    · rw [ht3.live] at hi
      obtain rfl : i = j := (Finset.mem_insert.mp hi).resolve_right hn
      exact hr3
  split_ifs with hh
  · refine hc _ ((ht2.modJob _ (by simp)).jStatusChange C now .PSUSP (-1)) ?_ ?_
    · rw [book_jStatusChange_unlogged (by decide)]
      exact (book_modJob _).trans hbook2
    · exact jStatusChange_hold_reserve (by rw [modJob_job]; exact hjob2) now
  · exact hc _ ht2 hbook2 (by rw [hjob2])

theorem newElements_hosts (jarray : JData) (elems : List (JobRef × Int)) (s : Mbd) :
    (elems.foldl (newElement C jarray) s).hosts = s.hosts := by
  induction elems generalizing s with
  | nil => rfl
  | cons e elems ih =>
    rw [List.foldl_cons, ih]
    unfold newElement
    split_ifs <;> rfl

theorem Holds.handleNewJobArray (hr : Holds H s) (hrep : s.replay = false)
    (ha : a ∉ s.live) (hnew : ∀ e ∈ elems, e.1 ∉ s.live) (jobId : Int) (u : URef) (bill : JobBill) :
    Holds H (handleNewJobArray C a (initJData jobId u bill) elems s) := by
  have ht : Touches false true a s (OpenLava.putOntoTree a .ARRAY (s.setJob a (initJData jobId u bill))) :=
    ((Touches.refl false true a s).modJob (fun _ => initJData jobId u bill) (by simp)).putOntoTree .ARRAY
  unfold OpenLava.handleNewJobArray
  dsimp only
  have hjob : ((OpenLava.putOntoTree a .ARRAY (s.setJob a (initJData jobId u bill))).jobs a).jStatus.reserve = false := by
    rw [putOntoTree_job, setJob_job]
    rfl
  have hb : H.book (OpenLava.putOntoTree a .ARRAY (s.setJob a (initJData jobId u bill))) = H.book s :=
    book_frame rfl rfl
  set s1 := OpenLava.putOntoTree a .ARRAY (s.setJob a (initJData jobId u bill))
  have hele := newElements (C := C) (s1.jobs a) elems s1
  set s2 := elems.foldl (newElement C (s1.jobs a)) s1
  rw [if_neg (by simp [hele.replay, ht.replay, hrep])]
  have hb2 : H.book (post (s1.jobs a) (pendPosting ((s1.jobs a).maxNumProcessors * elems.length)) s2) = H.book s := by
    rw [H.book_post rfl, ← hb]
    exact book_frame hele.queues (newElements_hosts _ elems s1)
  have hl : (countArray (s1.jobs a) elems.length (post (s1.jobs a)
      (pendPosting ((s1.jobs a).maxNumProcessors * elems.length)) s2)).live = s.live ∪ (elems.map Prod.fst).toFinset := by
    rw [← ht.live, ← hele.live]
    exact post_live ..
  have hj : (countArray (s1.jobs a) elems.length (post (s1.jobs a)
      (pendPosting ((s1.jobs a).maxNumProcessors * elems.length)) s2)).jobs = s2.jobs := post_jobs ..
  refine hr.same (book_after hb2 rfl rfl) ?_ (fun i hi => ?_) fun i hi hnot => ?_
  · rw [hl]
    exact Finset.subset_union_left
  · have hia : i ≠ a := by rintro rfl; exact ha hi
    have hn : i ∉ (elems.map Prod.fst).toFinset := fun hin => by
      obtain ⟨e, he, rfl⟩ := List.mem_map.mp (List.mem_toFinset.mp hin)
      exact hnew e he hi
    rw [hj, hele.other i hn, ht.other i hia]
    exact ⟨rfl, hr.unheld i hi⟩
  · rw [hl] at hi
    exact (hele.element i ((Finset.mem_union.mp hi).resolve_left hnot)).reserve hjob

theorem book_suspendRequeued : H.book (suspendRequeued j s) = H.book s := by
  unfold suspendRequeued
  split_ifs <;> exact book_frame rfl rfl

theorem Holds.requeued (hr : Holds H s) (hj : j ∈ s.live) (hf : (s.jobs j).phase = some .finished)
    (ht : Touches r t j s s') (hb : H.book s' = H.book s) (hres : (s'.jobs j).jStatus.reserve = false) : Holds H s' := by
  refine hr.follow hj ht (other_congr hb ?_) (.of_unreserved hres)
  rw [H.share_unreserved j hres, share_finished hf]

theorem book_handleRequeueJob (requeueTime : Int) : H.book (handleRequeueJob C requeueTime j s) = H.book s := by
  unfold handleRequeueJob
  rw [book_countPending, book_modJob, book_suspendRequeued]
  exact book_frame rfl rfl

theorem handleRequeueJob_unreserved (requeueTime : Int) :
    ((handleRequeueJob C requeueTime j s).jobs j).jStatus.reserve = false := by
  rcases handleRequeueJob_status (C := C) (j := j) (s := s) requeueTime with h | h <;> rw [h]

theorem Holds.arrayRequeue1 (hr : Holds H s) (h : Kept s) (hj : j ∈ s.live) (now : Int) (req : RequeueReq) :
    Holds H (arrayRequeue1 C now req s j) := by
  have ht := (Touches.refl true true j s).arrayRequeue1 C now req
  unfold OpenLava.arrayRequeue1 at ht ⊢
  dsimp only at ht ⊢
  split_ifs at ht ⊢ with hreq hpsu hrun
  -- as a held job or as a pending one
  iterate 2
    · have hf : (s.jobs j).jStatus.mask.isFinish = true := by
        simp only [Mask.isFinish, Bool.or_eq_true]
        tauto
      obtain ⟨ph, hph⟩ := h.phase hj
      obtain rfl : ph = .finished := by simpa [(phase_reads hph).isFinish] using hf
      refine hr.requeued hj hph ht (book_after (book_handleRequeueJob now) rfl rfl) ?_
      simp only [modJob_job, JData.withMask, JStatus.setState]
      simpa [updJgrpCountByJStatus] using handleRequeueJob_unreserved (C := C) (j := j) (s := s) now
  · exact hr.modJob _ (H.share_same j rfl rfl rfl rfl rfl) id
  · exact hr

theorem Holds.arrayRequeue (hr : Holds H s) (h : Kept s) (now : Int) (req : RequeueReq) (node : Option NodeRef)
    (elems : List JobRef) (hlive : ∀ j ∈ elems, j ∈ s.live) : Holds H (arrayRequeue C now req node elems s) := by
  unfold OpenLava.arrayRequeue
  dsimp only
  split_ifs
  · exact hr
  · clear * - hr h hlive
    induction elems generalizing s with
    | nil => exact hr
    | cons j elems ih =>
      have hj := hlive j (by simp)
      obtain ⟨hk, hl⟩ := h.arrayRequeue1 (C := C) hj now req
      exact ih (hr.arrayRequeue1 h hj now req) hk fun i hi => by rw [hl]; exact hlive i (by simp [hi])

theorem Holds.of_eq (hr : Holds H s) (hq : s'.queues = s.queues) (hh : s'.hosts = s.hosts) (hj : s'.jobs = s.jobs)
    (hl : s'.live = s.live) : Holds H s' := by
  refine ⟨?_, fun i hi => ?_⟩
  · rw [book_frame hq hh, hl, hj]
    exact hr.balanced
  · rw [hj]
    exact hr.unheld i (hl ▸ hi)

theorem Holds.removeJob (hr : Holds H s) (hf : (s.jobs j).phase = some .finished) : Holds H (removeJob j s) := by
  have hl : Holds H { s with live := s.live.erase j } := by
    refine ⟨?_, fun i hi => hr.unheld i (Finset.mem_of_mem_erase hi)⟩
    rw [show H.book { s with live := s.live.erase j } = H.book s from book_frame rfl rfl]
    exact hr.balanced.leave fun a => by
      rw [share_finished hf]
      rfl
  unfold OpenLava.removeJob
  dsimp only
  split
  · split_ifs <;> exact hl.of_eq rfl rfl rfl rfl
  · exact hl.of_eq rfl rfl rfl rfl
  · exact hl.of_eq rfl rfl rfl rfl

theorem Holds.setHosts (hr : Holds H s) (hj : j ∈ s.live) (hfree : (s.jobs j).Free) (hPtr : List HRef) (d : Int)
    (l : List HRef) : Holds H ((addDispJobs l d s).modJob j fun jp => { jp with hPtr }) := by
  have ht := ((Touches.refl true true j s).addDispJobs l d).modJob (fun jp => { jp with hPtr }) (by simp)
  refine hr.follow hj ht (other_congr ((book_modJob _).trans (book_addDispJobs l d)) ?_) ?_
  · rw [modJob_job]
    rcases hfree with ⟨-, hres⟩ | hf
    · rw [H.share_unreserved j hres]
      exact H.share_unreserved j hres
    · rw [share_finished hf]
      exact share_finished hf
  · rw [modJob_job]
    exact hr.unheld j hj

theorem Holds.allocHosts (hr : Holds H s) (hj : j ∈ s.live) (hf : (s.jobs j).Free) (n : Int)
    (cands : List (HRef × Nat)) : Holds H (allocHosts j n cands s) := by
  unfold OpenLava.allocHosts
  split_ifs
  · exact hr
  · exact hr.setHosts hj hf _ _ _

theorem Holds.postFinish (hr : Holds H s) (pdone perr : Bool) : Holds H (s.modJob j (·.postFinish pdone perr)) := by
  refine hr.modJob _ ?_ ?_ <;> unfold JData.postFinish <;> dsimp only <;> split_ifs
  · exact H.share_same j rfl rfl rfl rfl rfl
  · rfl
  · exact fun hu => hu
  · exact fun hu => hu

theorem Holds.reserveSlots (hr : Holds H s) (h : Kept s) (hj : j ∈ s.live) (now : Int)
    (hc : (s.jobs j).jStatus.reserve = true ∨ (s.jobs j).CanReserve)
    (hu : H.strict = true → (s.jobs j).jStatus.mask.psusp = false) : Holds H (reserveSlots C now j s) := by
  have ht := (Touches.refl true true j s).reserveSlots C now
  unfold OpenLava.reserveSlots at ht ⊢
  by_cases hres : (s.jobs j).jStatus.reserve = true
  · rw [if_pos hres]
    exact hr
  set f : JData → JData := fun jp => { jp with reserveTime := if jp.reserveTime = 0 then now else jp.reserveTime }
  have hk : Kept (s.modJob j f) := h.modJob _ ⟨rfl, rfl, rfl, fun _ => rfl, rfl, rfl⟩
  have hcan : ((s.modJob j f).jobs j).CanReserve := by
    rw [modJob_job]
    exact hc.resolve_left hres
  have hs : H.other j (s.modJob j f) = H.other j s :=
    other_congr (book_modJob f) (by rw [modJob_job]; exact H.share_same j rfl rfl rfl rfl rfl)
  have htake := takeReserve_other hk hj ((hr.clear hj).of_eq hs) hcan (by rw [modJob_job]; exact hu)
  have hjob : H.Unheld ((OpenLava.takeReserve j (s.modJob j f)).jobs j) := fun hst _ => by
    rw [takeReserve_jobs, modJob_job, modJob_job]
    exact hu hst
  split_ifs at ht ⊢
  · exact hr.follow hj ht (htake.trans hs) hjob
  · refine hr.follow hj ht (Eq.trans ?_ (htake.trans hs)) hjob
    refine other_congr (H.book_congr (fun q => ?_) fun _ => rfl) rfl
    dsimp only
    rw [Function.update_apply]
    split_ifs with hq
    · rw [hq]
    · rfl

theorem switchPostings_reserve (h : switchPostings jp n = some (off, on)) :
    off.acct .numRESERVE = 0 ∧ on.acct .numRESERVE = 0 := by
  unfold switchPostings at h
  dsimp only at h
  split_ifs at h
  all_goals
    cases h
    exact ⟨rfl, rfl⟩

theorem book_postInQueue (hp : p.acct .numRESERVE = 0) : H.book (postInQueue j q p s) = H.book s := by
  unfold postInQueue
  dsimp only
  split_ifs
  · exact book_modJob _
  · rw [H.book_post hp, book_modJob]

theorem updSwitchJob_other (qtp : QRef) (h : Kept (s.modJob j (·.inQueue qfp))) (hj : j ∈ s.live)
    (hsw : Switchable (s.jobs j).jStatus.mask) (hc : H.Clear j (s.modJob j (·.inQueue qfp))) (hu : H.Unheld (s.jobs j)) :
    H.other j (updSwitchJob j qfp qtp (s.jobs j).maxNumProcessors s) = H.other j (s.modJob j (·.inQueue qfp)) ∧
      H.Unheld ((updSwitchJob j qfp qtp (s.jobs j).maxNumProcessors s).jobs j) := by
  cases hr : (s.jobs j).jStatus.reserve with
  | false =>
    obtain ⟨ph, hph⟩ := h.phase (j := j) hj
    rw [modJob_job] at hph
    obtain ⟨off, on, hp, -, -⟩ := switchPostings_realise (show (s.jobs j).phase = some ph from hph) hsw qfp qtp
    unfold updSwitchJob
    simp only [hr, Bool.false_eq_true, if_false]
    rw [hp]
    have hjob : ((postInQueue j qtp on (postInQueue j qfp off s)).jobs j).jStatus.reserve = false := by
      simp only [postInQueue_jobs, modJob_job]
      exact hr
    refine ⟨other_congr ?_ ?_, .of_unreserved hjob⟩
    · rw [book_postInQueue (switchPostings_reserve hp).2, book_postInQueue (switchPostings_reserve hp).1, book_modJob]
    · rw [H.share_unreserved j hjob, H.share_unreserved j (by rw [modJob_job]; exact hr)]
  | true =>
    obtain ⟨off, on, s1, s2, hs1, hjob1, hp, hs2, hk2, hj2, hjob2, heq⟩ := h.switchReserved qtp hj hsw hr
    have hfit := (h.fit j hj).reserve (by rw [modJob_job]; exact hr)
    rw [modJob_job] at hfit
    have hu0 : H.Unheld ((s.modJob j (·.inQueue qfp)).jobs j) := by
      rw [modJob_job]
      exact hu
    have hpos : H.other j s2 = H.other j (s.modJob j (·.inQueue qfp)) :=
      calc H.other j s2
        _ = H.other j s1 := by
          refine other_congr ?_ ?_
          · rw [hs2, book_postInQueue (switchPostings_reserve hp).2, book_postInQueue (switchPostings_reserve hp).1]
          · rw [H.share_unreserved j (by rw [hjob2]; rfl), H.share_unreserved j (by rw [hjob1]; rfl)]
        _ = H.other j (dropReserve j (s.modJob j (·.inQueue qfp))) := by
          refine other_congr ?_ ?_
          · rw [hs1, book_modJob]
          · rw [hjob1, dropReserve_jobs, modJob_job, H.share_unreserved j rfl, H.share_unreserved j rfl]
        _ = H.other j (s.modJob j (·.inQueue qfp)) := dropReserve_other h hj hc hu0
    rw [heq]
    constructor
    · rw [takeReserve_other hk2 hj2 (hc.of_eq hpos) (by rw [hjob2]; exact hfit)
        (by rw [hjob2]; exact fun hst => hu hst hr), hpos]
    · rw [takeReserve_jobs, modJob_job, hjob2]
      exact fun hst _ => hu hst hr

theorem book_jobInQueueEnd (q : QRef) : H.book (jobInQueueEnd C j q s) = H.book s := by
  unfold jobInQueueEnd
  dsimp only
  split_ifs
  · rfl
  · rw [book_inPendOrMigList]
    exact book_frame rfl rfl
  · exact book_frame rfl rfl

theorem Holds.switchAJob (hr : Holds H s) (h : Kept s) (hj : j ∈ s.live)
    (hok : SwitchOk s j qtp verdict) : Holds H (switchAJob C j qtp verdict s) := by
  have ht := (Touches.refl true false j s).switchAJob C qtp verdict
  unfold OpenLava.switchAJob at ht ⊢
  by_cases he : (s.jobs j).jStatus.mask.isFinish ∨ verdict = .refusedEarly
  · rw [if_pos he]
    exact hr
  rw [if_neg he] at ht ⊢
  obtain ⟨hf, hv⟩ := not_or.mp he
  obtain ⟨hl, hsw⟩ : DefaultLimitOk s j qtp ∧ (verdict ≠ .refusedLate → Switchable (s.jobs j).jStatus.mask) := by
    cases verdict with
    | refusedEarly => exact absurd rfl hv
    | refusedLate => exact ⟨hok.resolve_left hf, absurd rfl⟩
    | accepted => exact ⟨(hok.resolve_left hf).1, fun _ => (hok.resolve_left hf).2⟩
  have hs := hl.same
  have hk1 := h.modJob (·.useDefaultProcessors (s.queues qtp).defaultProcessors) hs
  have hu1 : H.Unheld ((s.modJob j (·.useDefaultProcessors (s.queues qtp).defaultProcessors)).jobs j) := by
    rw [modJob_job, Unheld, hs.reserve, hs.mask]
    exact hr.unheld j hj
  have hoth1 : H.other j (s.modJob j (·.useDefaultProcessors (s.queues qtp).defaultProcessors)) = H.other j s := by
    refine other_congr (book_modJob _) ?_
    rw [modJob_job]
    exact H.share_same j hs.qPtr hs.hPtr hs.reserve (by rw [hs.mask]) (by rw [hs.mask])
  have hm1 : ((s.modJob j (·.useDefaultProcessors (s.queues qtp).defaultProcessors)).jobs j).jStatus.mask =
      (s.jobs j).jStatus.mask := by
    rw [modJob_job]
    exact hs.mask
  set s1 := s.modJob j (·.useDefaultProcessors (s.queues qtp).defaultProcessors)
  have hj1 : j ∈ s1.live := hj
  by_cases hl : verdict = .refusedLate
  · rw [if_pos hl] at ht ⊢
    exact hr.follow hj ht hoth1 hu1
  rw [if_neg hl] at ht ⊢
  have hc1 : H.Clear j s1 := (hr.clear hj).of_eq hoth1
  obtain ⟨s2, hs2, hk2, hj2, hq2, hm2⟩ := hk1.releaseForSwitch hj1
  have hoth2 : H.other j s2 = H.other j s1 ∧ H.Unheld (s2.jobs j) := by
    rw [← hs2]
    split_ifs with hres
    · have hjob := congrFun (freeReserveSlots_jobs j s1 hres.2) j
      rw [modJob_job] at hjob
      refine ⟨(other_congr (book_modJob _) ?_).trans (freeReserveSlots_other hk1 hj1 hc1 hu1), .of_unreserved ?_⟩
      · rw [modJob_job]
        exact H.share_same j rfl rfl rfl rfl rfl
      · rw [modJob_job, hjob]
        rfl
    · exact ⟨rfl, hu1⟩
  simp only [hs2] at ht ⊢
  obtain ⟨ho, hmov⟩ := jobInQueueEnd_same (C := C) (j := j) (s := s2) (s2.jobs j).phase
    (by rw [hm2, hm1]; simpa using hf) qtp
  have hb3 := book_jobInQueueEnd (H := H) (C := C) (j := j) (s := s2) qtp
  set s3 := jobInQueueEnd C j qtp s2
  have hk3 : Kept (s3.modJob j (·.inQueue (s1.jobs j).qPtr)) := by
    refine hk2.quiet ⟨ho.modJob _, ?_⟩
    rw [modJob_job]
    exact ⟨hq2.symm, hmov.uPtr, hmov.hPtr, hmov.max, hmov.mask, hmov.reserve⟩
  have hm3 : (s3.jobs j).jStatus.mask = (s2.jobs j).jStatus.mask := hmov.mask
  have hoth3 : H.other j (s3.modJob j (·.inQueue (s1.jobs j).qPtr)) = H.other j s2 := by
    refine other_congr ((book_modJob _).trans hb3) ?_
    rw [modJob_job]
    exact H.share_same j hq2.symm hmov.hPtr hmov.reserve (congrArg Mask.isPend hm3) (congrArg Mask.isStart hm3)
  have hu3 : H.Unheld (s3.jobs j) := by
    rw [Unheld, hmov.reserve, hm3]
    exact hoth2.2
  have ha := hoth3.trans (hoth2.1.trans hoth1)
  obtain ⟨hoth4, hu4⟩ := updSwitchJob_other qtp hk3 (by rw [ho.live]; exact hj2)
    (by rw [hm3, hm2, hm1]; exact hsw hl) ((hr.clear hj).of_eq ha) hu3
  refine hr.follow hj ht ((other_congr (book_modJob _) ?_).trans (hoth4.trans ha)) ?_
  · rw [modJob_job]
    exact H.share_same j rfl rfl rfl rfl rfl
  · rw [modJob_job]
    exact hu4

/-- No job is held while it reserves: a logged change to PSUSP frees its slots. -/
def PendReserved (op : Op) (s : Mbd) : Prop :=
  match op with
  | .reserveSlots _ j | .takeReserve j => (s.jobs j).jStatus.mask.psusp = false
  | .jStatusChange _ j n eventTime => (s.jobs j).jStatus.reserve = true → eventTime ≠ 0 → n.psusp = false
  | _ => True

instance (op : Op) (s : Mbd) : Decidable (PendReserved op s) := by
  unfold PendReserved
  split <;> infer_instance

theorem Holds.step (op : Op) (s : Mbd) (h : Kept s ∧ Holds H s)
    (hop : Bookable C op s ∧ (H.strict = true → PendReserved op s)) : Kept (step C op s) ∧ Holds H (step C op s) := by
  obtain ⟨hk, hr⟩ := h
  obtain ⟨hb, hpend⟩ := hop
  refine ⟨hk.step op s hb, ?_⟩
  cases op with
  | newJob now fromLog j jobId user bill => exact hr.handleNewJob hb now fromLog jobId user bill
  | newJobArray a jobId user bill elems =>
    exact hr.handleNewJobArray hk.replay hb.1 hb.2.1 jobId user bill
  | jStatusChange now j newStatus eventTime => exact hr.jStatusChange hk hb.1 now newStatus eventTime hb.2 hpend
  | allocHosts j n cands => exact hr.allocHosts hb.1 hb.2.1 n cands
  | deallocHosts j => exact hr.setHosts hb.1 hb.2 _ _ _
  | reserveSlots now j => exact hr.reserveSlots hk hb.1 now hb.2 hpend
  | freeReserveSlots j =>
    have hu := hr.unheld j hb.1
    refine hr.follow hb.1 (Touches.refl true true j s).freeReserveSlots
      (freeReserveSlots_other hk hb.1 (hr.clear hb.1) hu) ?_
    change H.Unheld ((freeReserveSlots j s).jobs j)
    by_cases hres : (s.jobs j).jStatus.reserve = true
    · exact .of_unreserved (by rw [freeReserveSlots_jobs j s hres, modJob_job]; rfl)
    · rw [freeReserveSlots, if_pos hres]
      exact hu
  | takeReserve j =>
    refine hr.follow hb.1 (Touches.refl true true j s).takeReserve
      (takeReserve_other hk hb.1 (hr.clear hb.1) hb.2 hpend) fun hst _ => ?_
    change ((takeReserve j s).jobs j).jStatus.mask.psusp = false
    rw [takeReserve_jobs, modJob_job]
    exact hpend hst
  | dropReserve j =>
    refine hr.follow hb (Touches.refl true true j s).dropReserve
      (dropReserve_other hk hb (hr.clear hb) (hr.unheld j hb)) (.of_unreserved ?_)
    change ((dropReserve j s).jobs j).jStatus.reserve = false
    rw [dropReserve_jobs, modJob_job]
    rfl
  | switchAJob j qtp verdict => exact hr.switchAJob hk hb.1 hb.2
  | moveAJob j moveReq =>
    obtain ⟨lists, ends, heq⟩ := moveAJob_relisted C j moveReq s
    show Holds H (moveAJob C j moveReq s)
    rw [heq]
    exact hr.of_eq rfl rfl rfl rfl
  | handleRequeueJob requeueTime j =>
    exact hr.requeued hb.1 hb.2 ((Touches.refl true true j s).handleRequeueJob C requeueTime)
      (book_handleRequeueJob requeueTime) (handleRequeueJob_unreserved requeueTime)
  | arrayRequeue now req node elems => exact hr.arrayRequeue hk now req node elems hb
  | removeJob j => exact hr.removeJob hb
  | modify j newSub =>
    exact hr.modJob (j := j) (fun jp => { jp with newSub := some newSub }) (H.share_same j rfl rfl rfl rfl rfl) fun hu => hu
  | note j n => exact hr.modJob (j := j) n.write (H.share_same j rfl rfl rfl rfl rfl) fun hu => hu
  | setUnkwn j b => exact hr.modJob (j := j) (·.withUnkwn b) (H.share_same j rfl rfl rfl rfl rfl) fun hu => hu
  | postFinish j pdone perr => exact hr.postFinish pdone perr
  | replayNewstat env eventTime j newStat => exact hb.elim
  | endReplay => exact hb.elim

end OpenLava

import OpenLava.Mbd.SlotTables

/-!
# Reservations and status changes on the books

The functions that reserve slots, release them and change the status of a job keep the books.
-/

namespace OpenLava

open Ledger Mask

variable {C : Config} {jp : JData} {ph : Phase}

theorem KeptBut.closeAt (h : KeptBut j (entryAt jp ph r) s) (jp' : JData) (hj : s.jobs j = jp')
    (hph : jp'.phase = some ph) (hr : jp'.jStatus.reserve = r) (hq : jp'.qPtr = jp.qPtr)
    (hu : jp'.uPtr = jp.uPtr) (hh : jp'.hPtr = jp.hPtr) (hm : ph = .pending → jp'.maxNumProcessors = jp.maxNumProcessors)
    (hfit : r → ph = .pending ∧ jp.numHostPtr ≤ jp.maxNumProcessors ∨ ph = .ssusp ∨ ph = .ususp) : Kept s := by
  refine h.close ?_ ?_ <;> rw [hj]
  · rw [entryOf_eq hph, hr, entryAt_congr r hq hu hh hm]
  · refine ⟨by simp [hph], fun hres => ?_⟩
    rw [hr] at hres
    rcases hfit hres with ⟨hp, hle⟩ | hs
    · refine .inl ⟨by rw [hph, hp], ?_⟩
      rw [hm hp, JData.numHostPtr, hh]
      exact hle
    · exact .inr (by simpa [hph] using hs)

theorem Kept.butAt (h : Kept s) (hj : j ∈ s.live) (hph : (s.jobs j).phase = some ph) :
    KeptBut j (entryAt (s.jobs j) ph (s.jobs j).jStatus.reserve) s := by
  have := h.but hj
  rwa [entryOf_eq hph] at this

theorem Kept.phase (h : Kept s) (hj : j ∈ s.live) : ∃ ph, (s.jobs j).phase = some ph :=
  Option.isSome_iff_exists.mp (h.fit j hj).phase

theorem Kept.setReserve (h : Kept s) (hj : j ∈ s.live) (hph : (s.jobs j).phase = some ph) (b : Bool)
    (hb : (s.jobs j).jStatus.reserve = b ∨ Reservable ph)
    (hfit : b → ph = .pending ∧ (s.jobs j).numHostPtr ≤ (s.jobs j).maxNumProcessors ∨ ph = .ssusp ∨ ph = .ususp) :
    Kept ((updResCounters j (s.jobs j) { (s.jobs j).jStatus with reserve := b } s).modJob j (·.withReserve b)) := by
  have hs : (entryAt (s.jobs j) ph b).Sound := by
    refine entryAt_sound fun hp hb => ?_
    rcases hfit hb with hle | hp' | hp'
    · exact hle.2
    · simp [hp] at hp'
    · simp [hp] at hp'
  have hbut := ((h.butAt hj hph).updResCounters hph b hb hs).only ((Only.refl j _).modJob (·.withReserve b))
  exact hbut.closeAt ((s.jobs j).withReserve b) (by simp) hph rfl rfl rfl rfl (fun _ => rfl) hfit

theorem Kept.dropReserve (h : Kept s) (hj : j ∈ s.live) : Kept (dropReserve j s) := by
  obtain ⟨ph, hph⟩ := h.phase hj
  refine h.setReserve hj hph false ?_ (by simp)
  cases hr : (s.jobs j).jStatus.reserve with
  | false => exact .inl rfl
  | true =>
    refine .inr ?_
    rcases (h.fit j hj).reserve hr with ⟨hp, -⟩ | hp | hp
    · exact .inl (by simpa [hph] using hp)
    · exact .inr (.inl (by simpa [hph] using hp))
    · exact .inr (.inr (by simpa [hph] using hp))

/-- The job pends and holds no more than it asks for, or is suspended. -/
def JData.CanReserve (jp : JData) : Prop :=
  jp.phase = some .pending ∧ jp.numHostPtr ≤ jp.maxNumProcessors ∨ jp.phase = some .ssusp ∨
    jp.phase = some .ususp
  deriving Decidable

theorem Kept.takeReserve (h : Kept s) (hj : j ∈ s.live) (hc : (s.jobs j).CanReserve) : Kept (takeReserve j s) := by
  rcases hc with ⟨hp, hle⟩ | hp | hp
  · exact h.setReserve hj hp true (.inr (.inl rfl)) fun _ => .inl ⟨rfl, hle⟩
  · exact h.setReserve hj hp true (.inr (.inr (.inl rfl))) fun _ => .inr (.inl rfl)
  · exact h.setReserve hj hp true (.inr (.inr (.inr rfl))) fun _ => .inr (.inr rfl)

def JData.Free (jp : JData) : Prop :=
  jp.phase = some .pending ∧ jp.jStatus.reserve = false ∨ jp.phase = some .finished
  deriving Decidable

theorem entryAt_free (h : ph = .pending ∧ r = false ∨ ph = .finished) (c : Counter) : (entryAt jp ph r).held c = 0 := by
  rcases h with ⟨rfl, rfl⟩ | rfl <;> cases c <;> rfl

theorem KeptBut.setHosts (h : KeptBut j (entryAt jp ph r) s) (hPtr : List HRef)
    (hl : ∀ h ∈ hPtr, (s.hosts h).remote = false) (hf : ph = .pending ∧ r = false ∨ ph = .finished) :
    KeptBut j (entryAt { jp with hPtr } ph r) s := by
  have he : entryAt { jp with hPtr } ph r = { entryAt jp ph r with hosts := hPtr } := by
    rcases hf with ⟨rfl, rfl⟩ | rfl <;> rfl
  rw [he]
  refine h.replace ?_ hl (Entry.same_hosts hPtr (entryAt_free hf))
  rw [← he]
  exact entryAt_sound fun hp hr => by simp_all

theorem Kept.setHosts (h : Kept s) (hj : j ∈ s.live) (hf : (s.jobs j).Free) (hPtr : List HRef)
    (hl : ∀ h ∈ hPtr, (s.hosts h).remote = false) (ho : Only j s s') (hjob : s'.jobs j = { s.jobs j with hPtr }) : Kept s' := by
  obtain ⟨ph, hph⟩ := h.phase hj
  have hf' : ph = .pending ∧ (s.jobs j).jStatus.reserve = false ∨ ph = .finished := by
    simpa [JData.Free, hph] using hf
  have hres : (s.jobs j).jStatus.reserve = false := by
    rcases hf' with h' | rfl
    · exact h'.2
    · cases hr : (s.jobs j).jStatus.reserve with
      | false => rfl
      | true => simpa [hph] using (h.fit j hj).reserve hr
  exact (((h.butAt hj hph).setHosts hPtr hl hf').only ho).closeAt _ hjob hph rfl rfl rfl rfl (fun _ => rfl) (by simp [hres])

theorem Kept.allocHosts (h : Kept s) (hj : j ∈ s.live) (hf : (s.jobs j).Free) (n : Int)
    (cands : List (HRef × Nat)) (hl : ∀ cand ∈ cands, (s.hosts cand.1).remote = false) : Kept (allocHosts j n cands s) := by
  unfold OpenLava.allocHosts
  split_ifs
  · exact h
  · refine h.setHosts hj hf (cands.flatMap fun cand => List.replicate cand.2 cand.1) (fun x hx => ?_)
      (((Only.refl j s).addDispJobs _ 1).modJob _) (by simp [addDispJobs])
    obtain ⟨cand, hc, hx⟩ := List.mem_flatMap.mp hx
    rw [List.eq_of_mem_replicate hx]
    exact hl cand hc

theorem Kept.deallocHosts (h : Kept s) (hj : j ∈ s.live) (hf : (s.jobs j).Free) : Kept (deallocHosts j s) :=
  h.setHosts hj hf [] (by simp) (((Only.refl j s).addDispJobs _ (-1)).modJob _)
    (by simp [OpenLava.deallocHosts, addDispJobs])

theorem Kept.modJob (h : Kept s) (f : JData → JData) (hf : SameEntry (s.jobs j).phase (s.jobs j) (f (s.jobs j))) :
    Kept (s.modJob j f) :=
  h.quiet ((Quiet.refl _ j s).modJob hf)

theorem Kept.reserveSlots (h : Kept s) (hj : j ∈ s.live) (now : Int)
    (hc : (s.jobs j).jStatus.reserve = true ∨ (s.jobs j).CanReserve) : Kept (reserveSlots C now j s) := by
  unfold OpenLava.reserveSlots
  by_cases hr : (s.jobs j).jStatus.reserve = true
  · rw [if_pos hr]
    exact h
  have ht := (h.modJob (j := j) (fun jp => { jp with reserveTime := if jp.reserveTime = 0 then now else jp.reserveTime })
    ⟨rfl, rfl, rfl, fun _ => rfl, rfl, rfl⟩).takeReserve hj (by rw [modJob_job]; exact hc.resolve_left hr)
  split_ifs
  · exact ht
  · refine ht.quiet (j := j) ⟨⟨?_, rfl, fun _ _ => rfl⟩, .refl _ _⟩
    -- `numUsable` is no counter
    refine { SameBooks.refl _ with queue_count := ?_, queue_uAcct := ?_, queue_hAcct := ?_, queue_clamped := ?_ } <;>
      intro q <;> dsimp only <;> rw [Function.update_apply] <;> split_ifs with hq <;> simp [hq]

theorem Kept.freeReserveSlots (h : Kept s) (hj : j ∈ s.live)
    (hc : (s.jobs j).jStatus.reserve = true → (s.jobs j).phase = some .pending) : Kept (freeReserveSlots j s) := by
  unfold OpenLava.freeReserveSlots
  split_ifs with hr
  · refine (h.dropReserve hj).deallocHosts (by simpa using hj) ?_
    rw [dropReserve_jobs, modJob_job]
    exact .inl ⟨hc hr, rfl⟩
  · exact h

/-- What `resetReserve` leaves of a job record. -/
structure Reset (jp jp' : JData) : Prop where
  qPtr : jp'.qPtr = jp.qPtr
  uPtr : jp'.uPtr = jp.uPtr
  jobBill : jp'.jobBill = jp.jobBill
  newSub : jp'.newSub = jp.newSub
  mask : jp'.jStatus.mask = jp.jStatus.mask

/-- The changes on which `resetReserve` releases the reservation of a job. -/
def Releases (old new : Mask) : Prop :=
  (new.psusp ∨ new.isFinish) ∧ old.pend ∨ old.isStart ∧ (new.run ∨ new.isFinish ∨ new.ususp ∨ new.pend)
  deriving Decidable

theorem Kept.resetReserve (h : Kept s) (hj : j ∈ s.live) (n : Mask) :
    Kept (resetReserve j n s) ∧ j ∈ (resetReserve j n s).live ∧ Reset (s.jobs j) ((resetReserve j n s).jobs j) ∧
      (((resetReserve j n s).jobs j).jStatus.reserve = true →
        (s.jobs j).jStatus.reserve = true ∧ ¬ Releases (s.jobs j).jStatus.mask n) := by
  unfold OpenLava.resetReserve
  obtain ⟨ph, hph⟩ := h.phase hj
  have hm := phase_reads (m := (s.jobs j).jStatus.mask) hph
  by_cases hr : (s.jobs j).jStatus.reserve = true
  · rw [if_neg (not_not.mpr hr)]
    by_cases hf : (n.psusp ∨ n.isFinish) ∧ (s.jobs j).jStatus.mask.pend
    · -- a pending job gives its hosts back
      have hpend : ph = .pending := by simpa [isPend, hf.2] using hm.isPend
      have hs : (s.jobs j).jStatus.mask.isStart = false := by simp [hm.isStart, hpend]
      have hkept := (h.freeReserveSlots hj fun _ => by rw [hph, hpend]).modJob (j := j)
        (fun jp => { jp with reserveTime := 0 }) ⟨rfl, rfl, rfl, fun _ => rfl, rfl, rfl⟩
      simp only [if_pos hf, modJob_job, freeReserveSlots_jobs j s hr, JData.withReserve, hs,
        Bool.false_eq_true, false_and, if_false]
      exact ⟨hkept, by simpa using hj, ⟨rfl, rfl, rfl, rfl, rfl⟩, by simp⟩
    · simp only [if_neg hf]
      split_ifs with hs
      · refine ⟨h.dropReserve hj, by simpa using hj, ?_⟩
        rw [dropReserve_jobs, modJob_job]
        exact ⟨⟨rfl, rfl, rfl, rfl, rfl⟩, by simp [JData.withReserve]⟩
      · exact ⟨h, hj, ⟨rfl, rfl, rfl, rfl, rfl⟩, fun _ => ⟨hr, not_or.mpr ⟨hf, hs⟩⟩⟩
  · rw [if_pos hr]
    exact ⟨h, hj, ⟨rfl, rfl, rfl, rfl, rfl⟩, fun hf => absurd hf hr⟩

def FinishOk (C : Config) (ph : Option Phase) (jp : JData) : Prop :=
  ∀ newSub ∈ jp.newSub, jp.jobBill.modifyOnce = true →
    (C.askedHostsOk newSub = true → newSub.queue = jp.qPtr) ∧
    (ph = some .pending → newSub.maxNumProcessors = jp.jobBill.maxNumProcessors)
  deriving Decidable

theorem changeJobParams_same {ph : Option Phase} (hq : C.askedHostsOk newSub = true → newSub.queue = jp.qPtr)
    (hm : ph = some .pending → newSub.maxNumProcessors = jp.jobBill.maxNumProcessors) :
    SameEntry ph jp (changeJobParams C newSub jp) := by
  have hmax : ph = some .pending → (newSub.maxNumProcessors : Int) = jp.maxNumProcessors := fun hp => by
    simp [JData.maxNumProcessors, hm hp]
  cases hok : C.askedHostsOk newSub with
  | true =>
    simp only [changeJobParams, hok, Bool.not_true, Bool.false_eq_true, if_false]
    exact ⟨hq hok, rfl, rfl, hmax, rfl, rfl⟩
  | false =>
    simp only [changeJobParams, hok, Bool.not_false, if_true]
    exact ⟨rfl, rfl, rfl, hmax, rfl, rfl⟩

theorem FinishOk.restoreSub {ph : Option Phase} (h : FinishOk C ph jp) : SameEntry ph jp (jp.restoreSub C) := by
  unfold JData.restoreSub
  split
  case h_1 newSub hn =>
    split_ifs with ho
    · obtain ⟨hq, hm⟩ := h newSub hn ho
      exact changeJobParams_same hq hm
    · exact .refl ph jp
  case h_2 => exact .refl ph jp

theorem exitReason_same (ph : Option Phase) (jp : JData) : SameEntry ph jp jp.exitReason := by
  unfold JData.exitReason
  split_ifs <;> exact ⟨rfl, rfl, rfl, fun _ => rfl, rfl, rfl⟩

theorem FinishOk.flags {ph : Option Phase} (h : FinishOk C ph jp) (old : JStatus) :
    FinishOk C ph (jp.exitReason.markRequeue old) := by
  unfold JData.exitReason
  split_ifs <;> exact h

theorem Quiet.moveToFinish {ph : Option Phase} (h : Quiet ph j s s') (old : JStatus)
    (hf : FinishOk C ph (s'.jobs j)) : Quiet ph j s (moveToFinish C j old s') := by
  refine Quiet.modJob (Quiet.inFinishList (Quiet.offJobList (Quiet.modJob (h.modJob (exitReason_same ph _)) ?_) j _) j) ?_
  · exact ⟨rfl, rfl, rfl, fun _ => rfl, rfl, rfl⟩
  · refine FinishOk.restoreSub ?_
    simpa using hf.flags old

theorem unstart_same (ph : Option Phase) (jp : JData) : SameEntry ph jp jp.unstart := by
  unfold JData.unstart
  split_ifs <;> exact ⟨rfl, rfl, rfl, fun _ => rfl, rfl, rfl⟩

theorem Quiet.moveJob {ph : Option Phase} (h : Quiet ph j s s') (now : Int) (old : JStatus) (n : Mask)
    (hf : n.isFinish → FinishOk C ph (s'.jobs j)) : Quiet ph j s (moveJob C now j old n s') := by
  unfold OpenLava.moveJob
  split_ifs with h1 h2 h3 h4
  · exact ((h.modJob ⟨rfl, rfl, rfl, fun _ => rfl, rfl, rfl⟩).offJobList j _).inStartJobList j
  · exact h.moveToFinish old (hf h2)
  · unfold moveToPend
    refine Quiet.modJob (Quiet.inPendOrMigList ((h.offJobList j .SJL).modJob (unstart_same ph _)) C _ _) ?_
    exact ⟨rfl, rfl, rfl, fun _ => rfl, rfl, rfl⟩
  · exact h.modJob ⟨rfl, rfl, rfl, fun _ => rfl, rfl, rfl⟩
  · exact h

/-- The job goes on pending with it, or a logged change calls `resetReserve`. -/
def ReserveOk (logIt : Bool) (jp : JData) (n : Mask) : Prop :=
  jp.jStatus.reserve = true →
    jp.jStatus.mask.isPend ∧ n.isPend ∨ logIt ∧ Releases jp.jStatus.mask n
  deriving Decidable

def StatusOk (C : Config) (logIt : Bool) (jp : JData) (n : Mask) : Prop :=
  n.known = jp.jStatus.mask.known ∨
    Accounted jp.jStatus.mask n ∧ ReserveOk logIt jp n ∧ (n.isFinish → FinishOk C jp.phase jp)
  deriving Decidable

theorem accounted_phase {old new : Mask} (h : Accounted old new) : ∃ ph', new.phase = some ph' := by
  cases hn : new.phase with
  | none => cases ho : old.phase with
    | none => simp [Accounted, ho] at h
    | some ph => cases ph <;> simp [Accounted, ho, hn] at h
  | some ph' => exact ⟨ph', rfl⟩

/-- After `resetReserve` only a job that goes on pending still reserves. -/
theorem Kept.resetIfLogged (h : Kept s) (hj : j ∈ s.live) {n : Mask} {eventTime : Int}
    (hr : ReserveOk (eventTime = 0) (s.jobs j) n) : ∃ s₁, (if eventTime = 0 then OpenLava.resetReserve j n s else s) =
    s₁ ∧ Kept s₁ ∧ j ∈ s₁.live ∧ Reset (s.jobs j) (s₁.jobs j) ∧
    ((s₁.jobs j).jStatus.reserve = true → (s.jobs j).jStatus.mask.isPend ∧ n.isPend) := by
  by_cases hl : eventTime = 0
  · obtain ⟨hk, hj', hreset, hres⟩ := h.resetReserve hj n
    refine ⟨_, if_pos hl, hk, hj', hreset, fun hr1 => ?_⟩
    obtain ⟨hr0, hn⟩ := hres hr1
    exact (hr hr0).resolve_right fun hrel => hn hrel.2
  · refine ⟨s, if_neg hl, h, hj, ⟨rfl, rfl, rfl, rfl, rfl⟩, fun hr1 => ?_⟩
    exact (hr hr1).resolve_right fun hrel => hl (by simpa using hrel.1)

theorem clearTimes_same (ph : Option Phase) (jp : JData) : SameEntry ph jp jp.clearTimes := by
  unfold JData.clearTimes
  split_ifs <;> exact ⟨rfl, rfl, rfl, fun _ => rfl, rfl, rfl⟩

theorem setStatus_only (n : Mask) : Only j s (setStatus j n s) := by
  apply Only.modJob
  apply Only.modJob
  split_ifs
  · exact (Only.refl j s).updJgrpCountByJStatus _ _ _
  · exact .refl j s

theorem moveJob_setStatus (now : Int) (old : JStatus) (n : Mask) {ph : Option Phase}
    (hf : n.isFinish → FinishOk C ph (s.jobs j)) : Only j s (moveJob C now j old n (setStatus j n s)) ∧
      SameEntry ph ((s.jobs j).withMask n) ((moveJob C now j old n (setStatus j n s)).jobs j) := by
  have hj := setStatus_job j n s
  have hq : Quiet ph j (setStatus j n s) (moveJob C now j old n (setStatus j n s)) := by
    refine (Quiet.refl ph j _).moveJob now old n fun hn => ?_
    rw [hj]
    unfold JData.clearTimes
    split_ifs <;> exact hf hn
  refine ⟨(setStatus_only n).trans hq.toOnly, SameEntry.trans ?_ hq.job⟩
  rw [hj]
  exact clearTimes_same ph _

theorem Kept.jStatusChange (h : Kept s) (hj : j ∈ s.live) (now : Int) (n : Mask) (eventTime : Int)
    (hok : StatusOk C (eventTime = 0) (s.jobs j) n) : Kept (jStatusChange C now j n eventTime s) := by
  unfold OpenLava.jStatusChange
  by_cases hsame : n.known = (s.jobs j).jStatus.mask.known
  · simp only [if_pos hsame]
    exact h
  obtain ⟨ha, hresOk, hf⟩ := hok.resolve_left hsame
  obtain ⟨ph, hph⟩ := h.phase hj
  obtain ⟨ph', hph'⟩ := accounted_phase ha
  obtain ⟨s1, hs1, hk, hj1, hr, hres⟩ := h.resetIfLogged hj hresOk
  simp only [if_neg hsame, hs1]
  -- the entry of the job is still the old one, its record is the new one
  have hph1 : (s1.jobs j).phase = some ph := by rw [JData.phase, hr.mask]; exact hph
  have hf1 : n.isFinish → FinishOk C (some ph) (s1.jobs j) := by
    rw [hph] at hf
    unfold FinishOk at hf ⊢
    rwa [hr.newSub, hr.jobBill, hr.qPtr]
  obtain ⟨ho, hjob⟩ := moveJob_setStatus (C := C) now (s.jobs j).jStatus n hf1
  have hb := (hk.butAt hj1 hph1).only ho
  set s2 := moveJob C now j (s.jobs j).jStatus n (setStatus j n s1)
  set r := (s1.jobs j).jStatus.reserve with hr
  have hmask : (s2.jobs j).jStatus.mask = n := hjob.mask
  have he : entryAt (s1.jobs j) ph r = entryAt (s2.jobs j) ph r :=
    (entryAt_congr r hjob.qPtr hjob.uPtr hjob.hPtr fun hp => hjob.max (by rw [hp])).symm
  rw [he] at hb
  -- only a job that goes on pending still reserves
  have hpen : r = true → ph = .pending ∧ ph' = .pending := fun hr => by
    obtain ⟨hold, hn⟩ := hres hr
    rw [(phase_reads hph).isPend] at hold
    rw [(phase_reads hph').isPend] at hn
    exact ⟨by simpa using hold, by simpa using hn⟩
  have hle : r = true → (s2.jobs j).numHostPtr ≤ (s2.jobs j).maxNumProcessors := fun hr => by
    obtain ⟨hp, -⟩ := hpen hr
    have hle1 : (s1.jobs j).numHostPtr ≤ (s1.jobs j).maxNumProcessors := by
      simpa [hph1, hp] using (hk.fit j hj1).reserve hr
    rw [JData.numHostPtr, hjob.hPtr, hjob.max (by rw [hp])]
    exact hle1
  have hph2 : (s2.jobs j).phase = some ph' := by rw [JData.phase, hmask]; exact hph'
  have hc : KeptBut j (entryAt (s2.jobs j) ph' r) (countJob C (eventTime = 0) j (s.jobs j).jStatus.mask n s2) := by
    rw [countJob, if_pos (.inl (by simp [hb.replay]))]
    refine hb.updCounters hph hph2 (by rwa [hmask]) ?_ (entryAt_sound fun _ => hle)
    cases hr : r with
    | false => exact .inl rfl
    | true => exact .inr (hpen hr)
  have hj : (countJob C (eventTime = 0) j (s.jobs j).jStatus.mask n s2).jobs j = s2.jobs j := by
    rw [countJob, if_pos (.inl (by simp [hb.replay])), updCounters_jobs]
  have hfit : r = true → ph' = .pending ∧ (s2.jobs j).numHostPtr ≤ (s2.jobs j).maxNumProcessors ∨
      ph' = .ssusp ∨ ph' = .ususp := fun hr => .inl ⟨(hpen hr).2, hle hr⟩
  split_ifs with hb
  · -- the job gives its hosts back: it is pending and holds none
    have hp' : ph' = .pending := by
      simpa [isPend, hb.2.2.1] using (phase_reads hph').isPend
    have hr : r = false := by
      cases hr : r with
      | false => rfl
      | true =>
        have hs := hb.2.2.2
        rw [(phase_reads hph).isStart, (hpen hr).1] at hs
        simp at hs
    have hf := (hc.setHosts [] (by simp) (.inl ⟨hp', hr⟩)).only ((Only.refl j _).modJob freeExecParams)
    exact hf.closeAt (freeExecParams (s2.jobs j)) (by rw [modJob_job, hj]) hph2 hjob.reserve
      rfl rfl rfl (fun _ => rfl) (by simp [hr])
  · exact hc.closeAt _ hj hph2 hjob.reserve rfl rfl rfl (fun _ => rfl) hfit

end OpenLava

import OpenLava.Mbd.SlotCounts

/-!
# What a job is counted off for

`handleFinishJob` may install a kept submission before `updCounters` runs, which then reads the queue and the number of
processors of that submission.
-/

namespace OpenLava

open Mask

def queueMove (jp : JData) (p : Posting) (a : QRef × Counter) : Int := if jp.qPtr = a.1 then p.acct a.2 else 0

def userMove (s : Mbd) (jp : JData) (p : Posting) (a : URef × Counter) : Int :=
  ((jp.uPtr :: (s.users jp.uPtr).gPtr).count a.1 : Int) * p.acct a.2

def hostMove (s : Mbd) (jp : JData) (p : Posting) (a : HRef × Counter) : Int :=
  localCount (fun h => (s.hosts h).remote) jp.hPtr a.1 * p.host.elim 0 (· a.2)

/-- The posting takes `e` off the counters, with its amounts, and puts `e'` on. -/
structure Moves (s : Mbd) (jp : JData) (p : Posting) (e e' : Entry) : Prop where
  queue : ∀ a, queueMove jp p a = owesQueue e' a - owesQueue e a
  user : ∀ a, userMove s jp p a = owesUser s e' a - owesUser s e a
  host : ∀ a, hostMove s jp p a = owesHost s e' a - owesHost s e a

/-- The state in which `jStatusChange` comes to the lists. -/
def afterReset (j : JobRef) (n : Mask) (eventTime : Int) (s : Mbd) : Mbd :=
  if eventTime = 0 then resetReserve j n s else s

/-- The state in which `jStatusChange` comes to `updCounters`. -/
def beforeCount (C : Config) (now : Int) (j : JobRef) (n : Mask) (eventTime : Int) (s : Mbd) : Mbd :=
  moveJob C now j (s.jobs j).jStatus n (setStatus j n (afterReset j n eventTime s))

theorem jStatusChange_eq (C : Config) (now : Int) (j : JobRef) (n : Mask) (eventTime : Int) (s : Mbd)
    (hn : n.known ≠ (s.jobs j).jStatus.mask.known)
    (hl : (beforeCount C now j n eventTime s).replay = false ∨ eventTime = 0) : jStatusChange C now j n eventTime s =
      if ¬ (n.isStart ∧ (s.jobs j).jStatus.mask.isPend) ∧ ¬ n.isFinish ∧ n.pend ∧ (s.jobs j).jStatus.mask.isStart then
        (updCounters ((beforeCount C now j n eventTime s).jobs j) (s.jobs j).jStatus.mask
          (beforeCount C now j n eventTime s)).modJob j freeExecParams
      else
        updCounters ((beforeCount C now j n eventTime s).jobs j) (s.jobs j).jStatus.mask
          (beforeCount C now j n eventTime s) := by
  have hc : countJob C (eventTime = 0) j (s.jobs j).jStatus.mask n (beforeCount C now j n eventTime s) =
      updCounters ((beforeCount C now j n eventTime s).jobs j) (s.jobs j).jStatus.mask
        (beforeCount C now j n eventTime s) := by
    rw [countJob, if_pos]
    rcases hl with hl | hl <;> simp [hl]
  rw [← hc]
  exact if_neg hn

/-- The job is counted again where it was counted, with the same amounts. -/
def CountedBack (C : Config) (now : Int) (j : JobRef) (n : Mask) (eventTime : Int) (s : Mbd) : Prop :=
  ∃ p, updCountersRow ((beforeCount C now j n eventTime s).jobs j).numHostPtr
      ((beforeCount C now j n eventTime s).jobs j).maxNumProcessors (s.jobs j).jStatus.mask n = some p ∧
    Moves s ((beforeCount C now j n eventTime s).jobs j) p
      (entryAt ((afterReset j n eventTime s).jobs j) ((s.jobs j).phase.getD .finished) false)
      (entryAt ((beforeCount C now j n eventTime s).jobs j) (n.phase.getD .finished) false)

def slotsAt (ph : Phase) (jp : JData) : Int := (entryAt jp ph false).amount .numJobs

/-- The kept submission asks for as many slots, if not started, in the same queue, if counted. -/
def RestoresSame (C : Config) (ph : Phase) (jp : JData) : Prop :=
  ∀ newSub ∈ jp.newSub, jp.jobBill.modifyOnce = true →
    (ph = .pending → newSub.maxNumProcessors = jp.jobBill.maxNumProcessors) ∧
    (C.askedHostsOk newSub = true → newSub.queue = jp.qPtr ∨ slotsAt ph jp = 0)

section

variable {C : Config} {now eventTime : Int} {j : JobRef} {s : Mbd} {n : Mask} {ph ph' : Phase}

theorem realises_acct
    (h : Realises a p (pendBy a ph' false - pendBy a ph false) fun c => heldBy ph' false c - heldBy ph false c) (c : Counter) :
    p.acct c = (entryAt a ph' false).amount c - (entryAt a ph false).amount c := by
  rw [h.acct c]
  simp only [Entry.amount, entryAt, mul_sub]
  split <;> ring

theorem moves_iff
    (h : Realises a p (pendBy a ph' false - pendBy a ph false) fun c => heldBy ph' false c - heldBy ph false c)
    (hh : a.hPtr = b.hPtr) : Moves s a p (entryAt b ph false) (entryAt a ph' false) ↔
      owesQueue (entryAt b ph false) = owesQueue (entryAt a ph false) ∧
        owesUser s (entryAt b ph false) = owesUser s (entryAt a ph false) := by
  have hque (x : QRef × Counter) : queueMove a p x = owesQueue (entryAt a ph' false) x - owesQueue (entryAt a ph false) x := by
    simp only [queueMove, owesQueue, realises_acct h, show ∀ ph, (entryAt a ph false).queue = a.qPtr from fun _ => rfl]
    split_ifs <;> simp
  have hu (x : URef × Counter) : userMove s a p x = owesUser s (entryAt a ph' false) x - owesUser s (entryAt a ph false) x := by
    rw [userMove, realises_acct h]
    exact mul_sub _ _ _
  have hhost (x : HRef × Counter) : hostMove s a p x = owesHost s (entryAt a ph' false) x - owesHost s (entryAt b ph false) x := by
    have he : p.host.elim 0 (· x.2) = heldBy ph' false x.2 - heldBy ph false x.2 := by
      rcases h.host with hp | ⟨hp, hz⟩
      · rw [hp, Option.elim_some]
      · rw [hp, Option.elim_none, hz x.2]
    rw [hostMove, he]
    simp only [owesHost, entryAt, ← hh]
    exact mul_sub _ _ _
  constructor
  · intro hm
    refine ⟨funext fun x => ?_, funext fun x => ?_⟩
    · have hx := hm.queue x
      rw [hque] at hx
      omega
    · have hx := hm.user x
      rw [hu] at hx
      omega
  · rintro ⟨hq, hus⟩
    exact ⟨fun x => by rw [hque, hq], fun x => by rw [hu, hus], hhost⟩

theorem amount_zero_of_slots (hs : slotsAt ph a = 0) (c : Counter) : (entryAt a ph false).amount c = 0 := by
  unfold slotsAt at hs
  cases ph <;> cases c <;> simp_all [Entry.amount, entryAt, pendBy, heldBy, hostTally, tally]

theorem amount_eq_iff (hh : a.hPtr = b.hPtr) : (∀ c, (entryAt b ph false).amount c = (entryAt a ph false).amount c) ↔
      (ph = .pending → b.maxNumProcessors = a.maxNumProcessors) := by
  constructor
  · rintro h rfl
    simpa [Entry.amount, entryAt, pendBy, heldBy, hostTally, tally, hh] using h .numPEND
  · intro h c
    have hpend : pendBy b ph false = pendBy a ph false := by
      cases ph with
      | pending => exact h rfl
      | _ => rfl
    simp only [Entry.amount, entryAt, hpend, hh]

/-- The entries of two records of one user with the same hosts agree everywhere. -/
theorem owes_eq_iff (hu : a.uPtr = b.uPtr) (hh : a.hPtr = b.hPtr) :
    (owesQueue (entryAt b ph false) = owesQueue (entryAt a ph false) ∧
        owesUser s (entryAt b ph false) = owesUser s (entryAt a ph false)) ↔
      (ph = .pending → b.maxNumProcessors = a.maxNumProcessors) ∧ (a.qPtr = b.qPtr ∨ slotsAt ph b = 0) := by
  rw [← amount_eq_iff hh]
  constructor
  · rintro ⟨hque, huser⟩
    refine ⟨fun c => ?_, ?_⟩
    · -- the user itself is in the list of those that are counted
      have hc := congrFun huser (b.uPtr, c)
      simp only [owesUser, show (entryAt b ph false).user = b.uPtr from rfl,
        show (entryAt a ph false).user = b.uPtr from hu] at hc
      refine Int.eq_of_mul_eq_mul_left ?_ hc
      have hpos : 0 < (b.uPtr :: (s.users b.uPtr).gPtr).count b.uPtr := List.count_pos_iff.mpr List.mem_cons_self
      omega
    · by_contra hne
      obtain ⟨hq, hs⟩ := not_or.mp hne
      have hc := congrFun hque (b.qPtr, .numJobs)
      simp only [owesQueue, show (entryAt b ph false).queue = b.qPtr from rfl,
        show (entryAt a ph false).queue = a.qPtr from rfl, if_true, if_neg hq] at hc
      exact hs hc
  · rintro ⟨ha, hq⟩
    refine ⟨funext fun x => ?_, funext fun x => ?_⟩
    · simp only [owesQueue, show (entryAt b ph false).queue = b.qPtr from rfl,
        show (entryAt a ph false).queue = a.qPtr from rfl]
      rcases hq with hq | hs
      · rw [hq, ha]
      · rw [← ha, amount_zero_of_slots hs, ite_self, ite_self]
    · simp only [owesUser, show (entryAt b ph false).user = b.uPtr from rfl,
        show (entryAt a ph false).user = b.uPtr from hu, ha]

theorem restoreSub_places (jp : JData) : (jp.restoreSub C).uPtr = jp.uPtr ∧ (jp.restoreSub C).hPtr = jp.hPtr := by
  unfold JData.restoreSub changeJobParams
  split
  · split_ifs <;> exact ⟨rfl, rfl⟩
  · exact ⟨rfl, rfl⟩

theorem changeJobParams_fields (newSub : JobBill) (jp : JData) : (changeJobParams C newSub jp).jobBill = newSub ∧
      (changeJobParams C newSub jp).qPtr = if C.askedHostsOk newSub then newSub.queue else jp.qPtr := by
  unfold changeJobParams
  cases C.askedHostsOk newSub <;> exact ⟨rfl, rfl⟩

theorem restoreSub_same_iff (jp : JData) : ((ph = .pending → jp.maxNumProcessors = (jp.restoreSub C).maxNumProcessors) ∧
        ((jp.restoreSub C).qPtr = jp.qPtr ∨ slotsAt ph jp = 0)) ↔ RestoresSame C ph jp := by
  unfold JData.restoreSub RestoresSame
  split
  · rename_i newSub hn
    simp only [hn, Option.mem_def, Option.some.injEq, forall_eq']
    by_cases ho : jp.jobBill.modifyOnce = true
    · simp only [ho, if_true, forall_const]
      refine and_congr (imp_congr_right fun _ => ?_) ?_
      · rw [JData.maxNumProcessors, JData.maxNumProcessors, (changeJobParams_fields newSub jp).1, Int.ofNat_inj]
        exact eq_comm
      · rw [(changeJobParams_fields newSub jp).2]
        cases C.askedHostsOk newSub <;> simp
    · simp [ho]
  · rename_i hn
    simp [hn]

/-- Before the kept submission is looked at, only flags and times of the record change. -/
theorem beforeCount_finish (hs : n.isStart = false) (hf : n.isFinish = true) :
    ∃ b : JData, (beforeCount C now j n eventTime s).jobs j = b.restoreSub C ∧
      b.qPtr = ((afterReset j n eventTime s).jobs j).qPtr ∧ b.uPtr = ((afterReset j n eventTime s).jobs j).uPtr ∧
      b.hPtr = ((afterReset j n eventTime s).jobs j).hPtr ∧ b.jobBill = ((afterReset j n eventTime s).jobs j).jobBill ∧
      b.newSub = ((afterReset j n eventTime s).jobs j).newSub ∧ b.jStatus.mask = n := by
  refine ⟨(((((afterReset j n eventTime s).jobs j).withMask n).clearTimes).exitReason).markRequeue (s.jobs j).jStatus,
    ?_, ?_⟩
  · unfold beforeCount moveJob
    rw [if_neg (by simp [hs]), if_pos hf]
    unfold moveToFinish handleFinishJob
    rw [modJob_job]
    refine congrArg (JData.restoreSub C) ?_
    change (((setStatus j n (afterReset j n eventTime s)).modJob j JData.exitReason).modJob j
      (·.markRequeue (s.jobs j).jStatus)).jobs j = _
    rw [modJob_job, modJob_job, setStatus_job]
  · unfold JData.markRequeue JData.exitReason JData.clearTimes
    split_ifs <;> exact ⟨rfl, rfl, rfl, rfl, rfl, rfl⟩

theorem beforeCount_only (hs : n.isStart = false) (hf : n.isFinish = true) :
    Only j (afterReset j n eventTime s) (beforeCount C now j n eventTime s) := by
  unfold beforeCount moveJob
  rw [if_neg (by simp [hs]), if_pos hf]
  exact (((((setStatus_only n).modJob _).modJob _).offJobList j _).inFinishList j).modJob _

theorem beforeCount_pend (hf : n.isFinish = false) : SameEntry (some .pending)
    (((afterReset j n eventTime s).jobs j).withMask n) ((beforeCount C now j n eventTime s).jobs j) :=
  (moveJob_setStatus now (s.jobs j).jStatus n (by simp [hf])).2

/-- Releasing a reservation changes neither the submission nor the hosts of a started job. -/
theorem afterReset_fields (j : JobRef) (n : Mask) (eventTime : Int) (s : Mbd) :
    Reset (s.jobs j) ((afterReset j n eventTime s).jobs j) ∧
      ((s.jobs j).jStatus.mask.pend = false → ((afterReset j n eventTime s).jobs j).hPtr = (s.jobs j).hPtr) := by
  unfold afterReset
  split_ifs
  · unfold resetReserve
    by_cases hr : (s.jobs j).jStatus.reserve = true
    · by_cases hf : (n.psusp ∨ n.isFinish) ∧ (s.jobs j).jStatus.mask.pend
      · have hpend (x : JData) (h : (s.jobs j).jStatus.mask.pend = false) : x.hPtr = (s.jobs j).hPtr :=
          absurd hf.2 (by simp [h])
        simp only [if_pos hf]
        split_ifs
        · rw [dropReserve_jobs, modJob_job, modJob_job, freeReserveSlots_jobs j s hr,
            modJob_job]
          exact ⟨⟨rfl, rfl, rfl, rfl, rfl⟩, hpend _⟩
        · rw [modJob_job, freeReserveSlots_jobs j s hr, modJob_job]
          exact ⟨⟨rfl, rfl, rfl, rfl, rfl⟩, hpend _⟩
      · simp only [if_neg hf]
        split_ifs
        · rw [dropReserve_jobs, modJob_job]
          exact ⟨⟨rfl, rfl, rfl, rfl, rfl⟩, fun _ => rfl⟩
        · exact ⟨⟨rfl, rfl, rfl, rfl, rfl⟩, fun _ => rfl⟩
    · rw [if_pos hr]
      exact ⟨⟨rfl, rfl, rfl, rfl, rfl⟩, fun _ => rfl⟩
  · exact ⟨⟨rfl, rfl, rfl, rfl, rfl⟩, fun _ => rfl⟩

theorem restoresSame_congr (hq : jp'.qPtr = jp.qPtr) (hb : jp'.jobBill = jp.jobBill) (hsub : jp'.newSub = jp.newSub)
    (hh : ph ≠ .pending → jp'.hPtr = jp.hPtr) : RestoresSame C ph jp' ↔ RestoresSame C ph jp := by
  have hs : slotsAt ph jp' = slotsAt ph jp := by
    unfold slotsAt
    cases ph with
    | pending => simp [Entry.amount, entryAt, pendBy, heldBy, hostTally, tally, JData.maxNumProcessors, hb]
    | _ => simp [Entry.amount, entryAt, pendBy, hh]
  simp only [RestoresSame, hq, hb, hsub, hs]

/-- The statuses of a job that finishes or is taken back from its hosts. -/
def Leaves (ph : Phase) (n : Mask) : Prop := n = .EXIT ∨ n = .DONE ∨ n = .PEND ∧ ph ≠ .pending

theorem countedBack_finish (hph : (s.jobs j).phase = some ph) (hnot : ph ≠ .finished) (hn : n = .EXIT ∨ n = .DONE) :
    CountedBack C now j n eventTime s ↔ RestoresSame C ph (s.jobs j) := by
  have hs : n.isStart = false := by rcases hn with rfl | rfl <;> rfl
  have hf : n.isFinish = true := by rcases hn with rfl | rfl <;> rfl
  have hpha : n.phase = some .finished := by rcases hn with rfl | rfl <;> rfl
  have ha : Accounted (s.jobs j).jStatus.mask n = true := by
    have hmask : (s.jobs j).jStatus.mask.phase = some ph := hph
    unfold Accounted
    rw [hmask, hpha]
    rcases hn with rfl | rfl <;> cases ph <;> rfl
  obtain ⟨hr, hhos⟩ := afterReset_fields j n eventTime s
  obtain ⟨b, hb, hq, hu, hh, hbill, hsub, -⟩ := @beforeCount_finish C now eventTime j s n hs hf
  obtain ⟨p, hrow, hreal⟩ := updCountersRow_realises ((beforeCount C now j n eventTime s).jobs j) hph hpha ha hnot hnot
  have hs : RestoresSame C ph b ↔ RestoresSame C ph (s.jobs j) := by
    refine restoresSame_congr (hq.trans hr.qPtr) (hbill.trans hr.jobBill) (hsub.trans hr.newSub) fun hp => ?_
    have hpend : (s.jobs j).jStatus.mask.isPend = false := by
      rw [(phase_reads (m := (s.jobs j).jStatus.mask) hph).isPend, decide_eq_false hp]
    exact hh.trans (hhos (Bool.or_eq_false_iff.mp hpend).1)
  have he : entryAt ((afterReset j n eventTime s).jobs j) ph false = entryAt b ph false :=
    (entryAt_congr false hq hu hh fun _ => by simp only [JData.maxNumProcessors, hbill]).symm
  unfold CountedBack
  rw [hrow, hph, hpha, Option.getD_some, Option.getD_some, he]
  rw [hb] at hreal ⊢
  rw [← hs, ← restoreSub_same_iff, ← owes_eq_iff (s := s) (restoreSub_places b).1 (restoreSub_places b).2,
    ← moves_iff hreal (restoreSub_places b).2]
  constructor
  · rintro ⟨p', hp', h⟩
    rwa [Option.some.inj hp']
  · exact fun h => ⟨p, rfl, h⟩

theorem countedBack_pend (hph : (s.jobs j).phase = some ph) (hn : ph ≠ .finished) (hpend : ph ≠ .pending) :
    CountedBack C now j .PEND eventTime s := by
  have ha : Accounted (s.jobs j).jStatus.mask .PEND = true := by
    have hmask : (s.jobs j).jStatus.mask.phase = some ph := hph
    unfold Accounted
    rw [hmask]
    cases ph <;> first | rfl | exact absurd rfl hn
  obtain ⟨p, hrow, hr⟩ := updCountersRow_realises ((beforeCount C now j .PEND eventTime s).jobs j) hph
    (show Mask.PEND.phase = some .pending from rfl) ha hpend hn
  have hs := @beforeCount_pend C now eventTime j s .PEND rfl
  have he : entryAt ((beforeCount C now j .PEND eventTime s).jobs j) ph false =
      entryAt ((afterReset j .PEND eventTime s).jobs j) ph false :=
    entryAt_congr false hs.qPtr hs.uPtr hs.hPtr fun _ => hs.max rfl
  refine ⟨p, hrow, ?_⟩
  rw [hph, Option.getD_some, show Mask.PEND.phase.getD .finished = .pending from rfl, ← he]
  exact (moves_iff hr rfl).mpr ⟨rfl, rfl⟩

end

/-- A job is counted off where it was counted iff the kept submission asks for the same. -/
theorem countedBack_iff (C : Config) (now eventTime : Int) (j : JobRef) (s : Mbd) {ph : Phase}
    (hph : (s.jobs j).phase = some ph) (hnot : ph ≠ .finished) :
    (∀ n, Leaves ph n → CountedBack C now j n eventTime s) ↔ RestoresSame C ph (s.jobs j) := by
  constructor
  · intro h
    exact (countedBack_finish hph hnot (.inl rfl)).mp (h .EXIT (.inl rfl))
  · rintro h n (rfl | rfl | ⟨rfl, hpend⟩)
    · exact (countedBack_finish hph hnot (.inl rfl)).mpr h
    · exact (countedBack_finish hph hnot (.inr rfl)).mpr h
    · exact countedBack_pend hph hnot hpend

/-- A job running in queue 1, after a modification for this run; its own submission names queue 0. -/
def modifiedOnce : JData where
  jobId := 1
  jStatus := { mask := .RUN, modifyOnce := true }
  jobBill := { queue := 1, modifyOnce := true }
  newSub := some { queue := 0 }
  qPtr := 1
  uPtr := 0
  hPtr := [0]

/-- Its own submission names the queue it runs in, for other numbers of processors. -/
theorem countedBack_same_queue :
    CountedBack {} 0 0 .DONE 0 (Mbd.blank.setJob 0 { modifiedOnce with newSub := some { queue := 1, maxNumProcessors := 4 } }) :=
  (countedBack_iff {} 0 0 0 _ (by decide : _ = some .running) (by decide)).mpr
    (fun _ hn _ => by cases hn; exact ⟨fun h => absurd h (by decide), fun _ => .inl rfl⟩) .DONE (.inr (.inl rfl))

/-- It is counted off from queue 0. -/
theorem countedBack_modifiedOnce : ¬ CountedBack {} 0 0 .DONE 0 (Mbd.blank.setJob 0 modifiedOnce) := by
  rintro ⟨p, -, hmov⟩
  have hq := hmov.queue (1, .numRUN)
  rw [queueMove, if_neg (by decide)] at hq
  exact absurd hq (by decide)

end OpenLava

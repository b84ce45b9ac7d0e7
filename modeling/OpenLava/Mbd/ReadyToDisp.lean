import OpenLava.Mbd.FinishCounts
import OpenLava.Mbd.Touches
import OpenLava.Cmd.JobId

/-!
# The check before a job is dispatched

In the middle of its decisions `readyToDisp` of `mbd.policy.c` gives a job that uses the queue's default processor limit
the present limit, and it ends jobs that are too late.
-/

namespace OpenLava

open Mask Ledger
open OpenLava.JobId (LSB_ARRAY_IDX)

def PEND_JOB_START_TIME : Nat := 2
def PEND_JOB_DEP_INVALID : Nat := 4
def PEND_JOB_DELAY_SCHED : Nat := 13
def PEND_JOB_ARRAY_JLIMIT : Nat := 38
def PEND_QUE_INACT : Nat := 301
def PEND_QUE_WINDOW : Nat := 302
def PEND_QUE_JOB_LIMIT : Nat := 303
def PEND_QUE_WINDOW_WILL_CLOSE : Nat := 315
def PEND_QUE_PROCLIMIT : Nat := 316

/-- What the check reads besides; a reason counts if `OUT_SCHED_RS` holds of it. -/
structure DispEnv where
  ready2 : Bool := true -- `JFLAG_READY2`
  (now_disp termTime beginTime dispTime runWinCloseTime : Int := 0)
  jobCantFinshBeforeDeadline : JData → Int → Bool := fun _ _ => false
  (queueReason userReason groupReason uAcctReason : Option Nat := none)
  queueActive : Bool := true -- `QUEUE_STAT_ACTIVE`
  queueRun : Bool := true -- `QUEUE_STAT_RUN`
  depcondInvalid : Bool := false -- `JFLAG_DEPCOND_INVALID`
  /-- the slots, the available slots and the reason of `cntUQSlots` -/
  cntUQSlots : JData → Int × Int × Nat := fun _ => (1, 1, 0)
  arrayFull : Bool := false -- an element of an array that runs as many jobs as its limit allows

/-- `numSlots` and `*numAvailSlots`; `none` is `INFINIT_INT`. -/
structure Slots where
  (numSlots numAvailSlots : Option Int)

def DispEnv.aborts (env : DispEnv) (jp : JData) : Bool :=
  env.termTime ≠ 0 && (env.termTime ≤ env.now_disp || env.jobCantFinshBeforeDeadline jp env.termTime)

def DispEnv.reason (env : DispEnv) (jp : JData) (qp : QData) : Nat :=
  if jp.jStatus.mask.psusp then if jp.newReason = PEND_JOB_NO_PASSWD then jp.newReason else PEND_USER_STOP
  else if env.queueReason.isSome then env.queueReason.getD 0
  else if env.userReason.isSome then env.userReason.getD 0
  else if ¬ env.queueActive then PEND_QUE_INACT
  else if ¬ env.queueRun then PEND_QUE_WINDOW
  else if qp.maxJobs.any fun maxJobs => maxJobs - qp.count .numJobs + qp.count .numPEND ≤ 0 then PEND_QUE_JOB_LIMIT
  else if env.runWinCloseTime > 0 ∧ env.jobCantFinshBeforeDeadline jp env.runWinCloseTime then PEND_QUE_WINDOW_WILL_CLOSE
  else if env.now_disp < env.beginTime then PEND_JOB_START_TIME
  else if env.depcondInvalid then PEND_JOB_DEP_INVALID
  else if env.now_disp < env.dispTime then PEND_JOB_DELAY_SCHED
  else env.groupReason.getD 0

def DispEnv.userLimit (env : DispEnv) (jp : JData) (qp : QData) (jReason : Nat) : Nat :=
  if jReason = 0 ∧ qp.uJobLimit.isSome ∧ jp.jobBill.maxNumProcessors = 1 then env.uAcctReason.getD 0 else jReason

/-- `qPtr->defProcLimit > 0 ? qPtr->defProcLimit : 1` -/
def defProcs (defProcLimit : Nat) : Nat := if defProcLimit > 0 then defProcLimit else 1

def JData.setDefProcs (defProcLimit : Nat) (jp : JData) : JData :=
  if jp.jobBill.useDefProclimit then
    { jp with jobBill := { jp.jobBill with
        numProcessors := defProcs defProcLimit, maxNumProcessors := defProcs defProcLimit } }
  else jp

def atMost (limit : Int) (slots : Option Int) : Option Int := some (slots.elim limit (min · limit))

def DispEnv.slots (env : DispEnv) (jp : JData) (qp : QData) (jReason : Nat) : Slots × Nat :=
  let (slots, jReason) : Slots × Nat :=
    if jReason = 0 ∧ jp.jobBill.maxNumProcessors > 1 then
      let (numSlots, numAvailSlots, newReason) := env.cntUQSlots jp
      (⟨some numSlots, some numAvailSlots⟩, if numSlots = 0 then newReason else 0)
    else (⟨none, none⟩, jReason)
  let slots :=
    if qp.procLimit > 0 then ⟨atMost qp.procLimit slots.numSlots, atMost qp.procLimit slots.numAvailSlots⟩ else slots
  let jReason :=
    if qp.procLimit > 0 ∧ (jp.maxNumProcessors < qp.minProcLimit ∨ (jp.jobBill.numProcessors : Int) > qp.procLimit) then
      PEND_QUE_PROCLIMIT
    else jReason
  let jReason := if env.arrayFull then PEND_JOB_ARRAY_JLIMIT else jReason
  (if jReason = 0 then slots else ⟨some 0, some 0⟩, jReason)

/-- `SUB_RESTART | SUB_RESTART_FORCE`, also taken out of the reason. -/
def SUB_RESTART_BOTH : Nat := 0x3000

def JData.clearRestart (jp : JData) : JData :=
  { jp with
    jobBill := { jp.jobBill with restart := false, restartForce := false }
    newReason := jp.newReason - (jp.newReason &&& SUB_RESTART_BOTH) }

/-- `job_abort` -/
def jobAbort (C : Config) (now : Int) (j : JobRef) (s : Mbd) : Mbd :=
  jStatusChange C now j .EXIT 0 (s.modJob j JData.clearRestart)

def share (sharers : Finset JobRef) (j : JobRef) (s : Mbd) : Mbd :=
  { s with jobs := fun i => if i ∈ sharers then { s.jobs i with jobBill := (s.jobs j).jobBill } else s.jobs i }

/-- The slots of a job that is not pending, or that is ended, stay. -/
def readyToDisp (C : Config) (env : DispEnv) (now : Int) (sharers : Finset JobRef) (j : JobRef) (s : Mbd) :
    Bool × Option Slots × Mbd :=
  if ¬ (s.jobs j).jStatus.mask.isPend then (false, none, s)
  else if ¬ env.ready2 then (false, some ⟨some 0, some 0⟩, s)
  else if env.aborts (s.jobs j) then (false, none, share sharers j (jobAbort C now j s))
  else
    let qp := s.queues (s.jobs j).qPtr
    let jReason := env.userLimit (s.jobs j) qp (env.reason (s.jobs j) qp)
    let s := share sharers j (s.modJob j (·.setDefProcs qp.defProcLimit))
    let (slots, jReason) := env.slots (s.jobs j) qp jReason
    (jReason = 0, some slots, s.modJob j fun jp => { jp with newReason := jReason })

/-- What a pending job that reserves nothing is counted for in `numPEND`. -/
def pendShare (jp : JData) : Int :=
  if jp.jStatus.mask.isPend = true ∧ jp.jStatus.reserve = false then jp.maxNumProcessors else 0

def queueShare (jp : JData) (q : QRef) : Int := if jp.qPtr = q then pendShare jp else 0

def userShare (s : Mbd) (jp : JData) (u : URef) : Int :=
  ((jp.uPtr :: (s.users jp.uPtr).gPtr).count u : Int) * pendShare jp

/-- `numPEND` of every queue and user is the sum over its pending jobs that reserve nothing. -/
structure PendSums (s : Mbd) : Prop where
  queue : ∀ q, (s.queues q).count .numPEND = ∑ i ∈ s.live, queueShare (s.jobs i) q
  user : ∀ u, (s.users u).count .numPEND = ∑ i ∈ s.live, userShare s (s.jobs i) u

/-- `numPEND` of the queues and of the users moves by these amounts. -/
structure Shift (s s' : Mbd) (dq : QRef → Int) (du : URef → Int) : Prop where
  queue : ∀ q, (s'.queues q).count .numPEND = (s.queues q).count .numPEND + dq q
  user : ∀ u, (s'.users u).count .numPEND = (s.users u).count .numPEND + du u
  gPtr : ∀ u, (s'.users u).gPtr = (s.users u).gPtr

def toQueue (q₀ : QRef) (d : Int) (q : QRef) : Int := if q = q₀ then d else 0

def toUser (s : Mbd) (u0 : URef) (d : Int) (u : URef) : Int := ((u0 :: (s.users u0).gPtr).count u : Int) * d

section

variable {C : Config} {now : Int} {j : JobRef} {s s' s'' : Mbd} {jp : JData}
 

theorem Shift.of_same (h : SameBooks s s') : Shift s s' (fun _ => 0) fun _ => 0 :=
  ⟨fun q => by rw [h.queue_count, add_zero], fun u => by rw [h.user_count, add_zero], h.gPtr⟩

theorem Shift.trans (h : Shift s s' dq du) (h' : Shift s' s'' dq' du') :
    Shift s s'' (fun q => dq q + dq' q) fun u => du u + du' u :=
  ⟨fun q => by rw [h'.queue, h.queue, add_assoc], fun u => by rw [h'.user, h.user, add_assoc],
    fun u => (h'.gPtr u).trans (h.gPtr u)⟩

theorem Shift.post (hq : 0 ≤ (s.queues jp.qPtr).count .numPEND + p.acct .numPEND) (hu : ∀ u, 0 ≤ (s.users u).count .numPEND)
    (hu' : ∀ u, 0 ≤ (s.users u).count .numPEND + toUser s jp.uPtr (p.acct .numPEND) u) :
    Shift s (post jp p s) (toQueue jp.qPtr (p.acct .numPEND)) (toUser s jp.uPtr (p.acct .numPEND)) where
  queue q := by
    by_cases hjq : q = jp.qPtr
    · subst hjq
      rw [post_queues_same, toQueue, if_pos rfl]
      exact addValue_of_nonneg hq
    · rw [post_queues_other q hjq, toQueue, if_neg hjq, add_zero]
  user u := by
    rw [post_users_apply]
    exact (iterate_add (g := updUserData1 (fun h => (s.hosts h).remote) jp p.acct)
      (v := fun up (_ : Unit) => up.count .numPEND) (d := fun _ => p.acct .numPEND) (P := fun _ => True)
      (fun up _ _ h => ⟨trivial, fun _ => addValue_of_nonneg (h ())⟩) _ (s.users u) trivial (fun _ => hu u)
      fun _ => hu' u).2 ()
  gPtr u := (post_samePlaces jp p s).gPtr u

/-- What `resetReserve` gives back to `numPEND` when the job finishes. -/
def released (jp : JData) : Int :=
  if jp.jStatus.reserve = true ∧ jp.jStatus.mask.pend = true then jp.numHostPtr else 0

theorem released_nonneg (jp : JData) : 0 ≤ released jp := by
  unfold released
  split_ifs
  · exact Int.natCast_nonneg _
  · exact le_rfl

theorem toUser_nonneg (hd : 0 ≤ d) (u : URef) : 0 ≤ toUser s u0 d u :=
  mul_nonneg (Int.natCast_nonneg _) hd

theorem toQueue_nonneg (hd : 0 ≤ d) (q : QRef) : 0 ≤ toQueue q₀ d q := by
  unfold toQueue
  split_ifs
  · exact hd
  · exact le_rfl

theorem isPend_of_phase (h : jp.phase = some .pending) : jp.jStatus.mask.isPend = true := by
  simp [(phase_reads (m := jp.jStatus.mask) h).isPend]

theorem deallocHosts_same (j : JobRef) (s : Mbd) : SameBooks s (deallocHosts j s) :=
  (((Only.refl j s).addDispJobs _ _).modJob _).toSameBooks

/-- A pending job gives the slots it reserves back to `numPEND`. -/
def releasePosting (num : Int) : Posting := ⟨tally 0 num 0 0 0 (-num), hostTally (-1) 0 0 0 (-1)⟩

theorem dropReserve_shift (hph : (s.jobs j).phase = some .pending) (hr : (s.jobs j).jStatus.reserve = true)
    (hq : ∀ q, 0 ≤ (s.queues q).count .numPEND) (hu : ∀ u, 0 ≤ (s.users u).count .numPEND) : Shift s (dropReserve j s)
    (toQueue (s.jobs j).qPtr (s.jobs j).numHostPtr) (toUser s (s.jobs j).uPtr (s.jobs j).numHostPtr) := by
  have hn : 0 ≤ (s.jobs j).numHostPtr := Int.natCast_nonneg _
  have hpend := isPend_of_phase hph
  have hkno : (s.jobs j).jStatus.mask.known = .PEND ∨ (s.jobs j).jStatus.mask.known = .PSUSP := by
    obtain ⟨p, u, hf⟩ := phase_form (m := (s.jobs j).jStatus.mask) hph
    rw [hf]
    cases p
    · exact .inr rfl
    · exact .inl rfl
  have hrow : updResCountersRow (s.jobs j).numHostPtr (s.jobs j).maxNumProcessors (s.jobs j).jStatus
      { (s.jobs j).jStatus with reserve := false } = some (releasePosting (s.jobs j).numHostPtr, .remove) := by
    rcases hkno with hkno | hkno <;>
      simp [updResCountersRow, releasePosting, hkno, hr, hpend, PEND, PSUSP, SSUSP, USUSP]
  have heq : dropReserve j s = (proxyHRsvJLRemoveEntry j (s.jobs j)
      (OpenLava.post (s.jobs j) (releasePosting (s.jobs j).numHostPtr) s)).modJob j (·.withReserve false) := by
    simp only [dropReserve, updResCounters, hpend, not_true_eq_false, false_and, if_false, hrow]
  have hpost : Shift s (OpenLava.post (s.jobs j) (releasePosting (s.jobs j).numHostPtr) s)
      (toQueue (s.jobs j).qPtr (s.jobs j).numHostPtr) (toUser s (s.jobs j).uPtr (s.jobs j).numHostPtr) :=
    Shift.post (add_nonneg (hq _) hn) hu fun u => add_nonneg (hu u) (toUser_nonneg hn u)
  rw [heq]
  simpa using hpost.trans (.of_same (((Only.refl j _).proxyHRsvJLRemoveEntry j (s.jobs j)).modJob
    (·.withReserve false)).toSameBooks)

theorem resetReserve_shift (hph : (s.jobs j).phase = some .pending) (hq : ∀ q, 0 ≤ (s.queues q).count .numPEND)
    (hu : ∀ u, 0 ≤ (s.users u).count .numPEND) : Shift s (resetReserve j .EXIT s)
    (toQueue (s.jobs j).qPtr (released (s.jobs j))) (toUser s (s.jobs j).uPtr (released (s.jobs j))) := by
  have hs : (s.jobs j).jStatus.mask.isStart = false := by
    simp [(phase_reads (m := (s.jobs j).jStatus.mask) hph).isStart]
  have hz (h : released (s.jobs j) = 0) : Shift s s (toQueue (s.jobs j).qPtr (released (s.jobs j)))
      (toUser s (s.jobs j).uPtr (released (s.jobs j))) := by
    simp only [h]
    exact ⟨fun q => by simp [toQueue], fun u => by simp [toUser], fun _ => rfl⟩
  by_cases hr : (s.jobs j).jStatus.reserve = true
  · by_cases hpend : (s.jobs j).jStatus.mask.pend = true
    · have heq : resetReserve j .EXIT s = (deallocHosts j (dropReserve j s)).modJob j fun jp => { jp with reserveTime := 0 } := by
        have hj : ((deallocHosts j (dropReserve j s)).jobs j).jStatus.mask.isStart = false := by
          simpa [deallocHosts, addDispJobs, dropReserve_jobs, JData.withReserve] using hs
        simp [resetReserve, freeReserveSlots, hr, hpend, EXIT, isFinish, hj]
      have hrel : released (s.jobs j) = (s.jobs j).numHostPtr := if_pos ⟨hr, hpend⟩
      rw [heq, hrel]
      simpa using (dropReserve_shift hph hr hq hu).trans (.of_same ((deallocHosts_same j _).trans
        (((Only.refl j _).modJob fun jp => { jp with reserveTime := 0 }).toSameBooks)))
    · have heq : resetReserve j .EXIT s = s := by simp [resetReserve, hpend, hs]
      rw [heq]
      exact hz (if_neg fun h => hpend h.2)
  · have heq : resetReserve j .EXIT s = s := if_pos hr
    rw [heq]
    exact hz (if_neg fun h => hr h.1)

/-- What is installed when the job finishes depends on these fields. -/
theorem restoreSub_congr {jp jp' : JData} (hq : jp'.qPtr = jp.qPtr) (hmax : jp'.maxNumProcessors = jp.maxNumProcessors)
    (ho : jp'.jobBill.modifyOnce = jp.jobBill.modifyOnce) (hs : jp'.newSub = jp.newSub) : (jp'.restoreSub C).qPtr =
    (jp.restoreSub C).qPtr ∧ (jp'.restoreSub C).maxNumProcessors = (jp.restoreSub C).maxNumProcessors := by
  have hc (x : JData) : x.restoreSub C =
      x.newSub.elim x fun newSub => if x.jobBill.modifyOnce then changeJobParams C newSub x else x := by
    unfold JData.restoreSub
    cases x.newSub <;> rfl
  rw [hc, hc, hs, ho]
  cases jp.newSub with
  | none => exact ⟨hq, hmax⟩
  | some newSub =>
    simp only [Option.elim_some]
    split_ifs
    · simp only [JData.maxNumProcessors, changeJobParams_fields, hq, and_self]
    · exact ⟨hq, hmax⟩

theorem jobAbort_record (C : Config) (now : Int) (j : JobRef) (s : Mbd) :
    ∃ a : JData, (beforeCount C now j .EXIT 0 (s.modJob j JData.clearRestart)).jobs j = a ∧
      a.qPtr = ((s.jobs j).restoreSub C).qPtr ∧ a.maxNumProcessors = ((s.jobs j).restoreSub C).maxNumProcessors ∧
      a.uPtr = (s.jobs j).uPtr ∧ a.jStatus.mask = .EXIT := by
  obtain ⟨b, hb, hq, hu, -, hbill, hs, hmask⟩ :=
    @beforeCount_finish C now 0 j (s.modJob j JData.clearRestart) .EXIT rfl rfl
  obtain ⟨hr, -⟩ := afterReset_fields j .EXIT 0 (s.modJob j JData.clearRestart)
  have hbill' : b.jobBill = ((s.jobs j).clearRestart).jobBill := by rw [hbill, hr.jobBill, modJob_job]
  obtain ⟨hq', hmax'⟩ := @restoreSub_congr C (s.jobs j) b (by rw [hq, hr.qPtr, modJob_job]; rfl)
    (by rw [JData.maxNumProcessors, hbill']; rfl) (by rw [hbill']; rfl) (by rw [hs, hr.newSub, modJob_job]; rfl)
  refine ⟨b.restoreSub C, hb, hq', hmax', ?_, ?_⟩
  · rw [(restoreSub_places b).1, hu, hr.uPtr, modJob_job]
    rfl
  · rw [(Touches.restoreSub_keeps C b).1, hmask]

theorem toUser_congr (h : ∀ u, (s'.users u).gPtr = (s.users u).gPtr) (u0 : URef) (d : Int) :
    toUser s' u0 d = toUser s u0 d := by
  funext u
  simp only [toUser, h]

theorem exit_known_ne (hph : (s.jobs j).phase = some .pending) :
    Mask.EXIT.known ≠ ((s.modJob j JData.clearRestart).jobs j).jStatus.mask.known := by
  intro h
  have hpha : Mask.EXIT.phase = ((s.modJob j JData.clearRestart).jobs j).jStatus.mask.phase := phase_congr h
  rw [modJob_job, show (s.jobs j).clearRestart.jStatus.mask.phase = some .pending from hph] at hpha
  cases hpha

/-- `job_abort` leaves the other jobs alone; the job is finished, with the installed submission. -/
theorem jobAbort_jobs (hph : (s.jobs j).phase = some .pending) : (jobAbort C now j s).live = s.live ∧
    (∀ i, i ≠ j → (jobAbort C now j s).jobs i = s.jobs i) ∧ pendShare ((jobAbort C now j s).jobs j) = 0 ∧
    ((jobAbort C now j s).jobs j).maxNumProcessors = ((s.jobs j).restoreSub C).maxNumProcessors := by
  have ht : Touches true true j s (jobAbort C now j s) :=
    ((Touches.refl true true j s).modJob JData.clearRestart (by simp)).jStatusChange C now .EXIT 0
  obtain ⟨a, ha, -, hamax, -, hama⟩ := jobAbort_record C now j s
  have hj : (jobAbort C now j s).jobs j = a := by
    rw [jobAbort, jStatusChange_eq C now j .EXIT 0 _ (exit_known_ne hph) (.inr rfl), if_neg (by simp [EXIT, isFinish]),
      updCounters_jobs]
    exact ha
  rw [hj]
  exact ⟨ht.live, ht.other, by simp [pendShare, hama, EXIT, isPend], hamax⟩

/-- `job_abort` gives the reserved slots back, then takes those of the installed submission. -/
theorem jobAbort_shift (hph : (s.jobs j).phase = some .pending) (hq : ∀ q, 0 ≤ (s.queues q).count .numPEND)
    (hu : ∀ u, 0 ≤ (s.users u).count .numPEND) (hroom : ((s.jobs j).restoreSub C).maxNumProcessors ≤
      (s.queues ((s.jobs j).restoreSub C).qPtr).count .numPEND +
        toQueue (s.jobs j).qPtr (released (s.jobs j)) ((s.jobs j).restoreSub C).qPtr)
    (hroom' : ∀ u, 0 ≤ (s.users u).count .numPEND +
      toUser s (s.jobs j).uPtr (released (s.jobs j) - ((s.jobs j).restoreSub C).maxNumProcessors) u) :
    Shift s (jobAbort C now j s) (fun q => toQueue (s.jobs j).qPtr (released (s.jobs j)) q -
        toQueue ((s.jobs j).restoreSub C).qPtr ((s.jobs j).restoreSub C).maxNumProcessors q)
      (toUser s (s.jobs j).uPtr (released (s.jobs j) - ((s.jobs j).restoreSub C).maxNumProcessors)) := by
  obtain ⟨a, ha, haq, hamax, hau, hama⟩ := jobAbort_record C now j s
  let s0 := s.modJob j JData.clearRestart
  let t := beforeCount C now j .EXIT 0 s0
  have hj : s0.jobs j = (s.jobs j).clearRestart := modJob_job s j _
  have hph0 : (s0.jobs j).phase = some .pending := by rw [hj]; exact hph
  have hmask0 : (s0.jobs j).jStatus.mask = (s.jobs j).jStatus.mask := by rw [hj]; rfl
  have hm := phase_reads (m := (s.jobs j).jStatus.mask) hph
  -- up to `updCounters`
  have hr : Shift s t (toQueue (s.jobs j).qPtr (released (s.jobs j))) (toUser s (s.jobs j).uPtr (released (s.jobs j))) := by
    have h := (resetReserve_shift hph0 hq hu).trans
      (.of_same (@beforeCount_only C now 0 j s0 .EXIT rfl rfl).toSameBooks)
    simp only [add_zero, hj] at h
    exact ⟨h.queue, h.user, h.gPtr⟩
  have hkno : Mask.EXIT.known ≠ (s0.jobs j).jStatus.mask.known := exit_known_ne hph
  obtain ⟨p, hrow, hreal⟩ := updCountersRow_realises a hph (show Mask.EXIT.phase = some .finished from rfl)
    (by unfold Accounted; rw [show (s.jobs j).jStatus.mask.phase = some .pending from hph]; rfl) (by decide) (by decide)
  have hacct : p.acct .numPEND = -a.maxNumProcessors := by
    rw [realises_acct hreal]
    simp [Entry.amount, entryAt, pendBy, heldBy, hostTally, tally]
  have hupd : updCounters (t.jobs j) (s0.jobs j).jStatus.mask t = OpenLava.post a p t := by
    have hf : (s.jobs j).jStatus.mask.isFinish = false := by simp [hm.isFinish]
    rw [show t.jobs j = a from ha, hmask0]
    unfold updCounters
    rw [hmask0] at hkno
    simp only [hf, hama, hkno, Bool.false_eq_true, if_false, hrow]
    rfl
  have hpost : Shift t (OpenLava.post a p t) (toQueue a.qPtr (p.acct .numPEND)) (toUser t a.uPtr (p.acct .numPEND)) := by
    refine Shift.post ?_ (fun u => ?_) fun u => ?_
    · rw [hr.queue, hacct, haq, hamax]
      omega
    · rw [hr.user]
      exact add_nonneg (hu u) (toUser_nonneg (released_nonneg _) u)
    · have hu' := hroom' u
      rw [hr.user, hacct, hamax, hau, toUser_congr hr.gPtr]
      simp only [toUser] at hu' ⊢
      linarith [mul_sub (((s.jobs j).uPtr :: (s.users (s.jobs j).uPtr).gPtr).count u : Int) (released (s.jobs j))
        ((s.jobs j).restoreSub C).maxNumProcessors]
  have heq : jobAbort C now j s = OpenLava.post a p t := by
    rw [jobAbort, jStatusChange_eq C now j .EXIT 0 s0 hkno (.inr rfl), if_neg (by simp [EXIT, isFinish])]
    exact hupd
  have ha := hr.trans hpost
  rw [toUser_congr hr.gPtr, hacct, haq, hamax, hau] at ha
  rw [heq]
  refine ⟨fun q => ?_, fun u => ?_, ha.gPtr⟩
  · rw [ha.queue]
    simp only [toQueue]
    split_ifs <;> ring
  · rw [ha.user]
    simp only [toUser]
    ring

theorem pendShare_nonneg (jp : JData) : 0 ≤ pendShare jp := by
  unfold pendShare
  split_ifs
  · exact Int.natCast_nonneg _
  · exact le_rfl

theorem queueShare_nonneg (jp : JData) (q : QRef) : 0 ≤ queueShare jp q := by
  unfold queueShare
  split_ifs
  · exact pendShare_nonneg jp
  · exact le_rfl

theorem userShare_nonneg (s : Mbd) (jp : JData) (u : URef) : 0 ≤ userShare s jp u :=
  mul_nonneg (Int.natCast_nonneg _) (pendShare_nonneg jp)

theorem PendSums.queue_le (h : PendSums s) (hj : j ∈ s.live) (q : QRef) :
    queueShare (s.jobs j) q ≤ (s.queues q).count .numPEND := by
  rw [h.queue]
  exact Finset.single_le_sum (f := fun i => queueShare (s.jobs i) q) (fun i _ => queueShare_nonneg _ q) hj

theorem PendSums.user_le (h : PendSums s) (hj : j ∈ s.live) (u : URef) :
    userShare s (s.jobs j) u ≤ (s.users u).count .numPEND := by
  rw [h.user]
  exact Finset.single_le_sum (f := fun i => userShare s (s.jobs i) u) (fun i _ => userShare_nonneg s _ u) hj

/-- The sums stay if the counters move by the share of one job. -/
theorem PendSums.of_shift (h : PendSums s) (hj : j ∈ s.live) (hs : Shift s s' dq du) (hl : s'.live = s.live)
    (ho : ∀ i, i ≠ j → (s'.jobs i).qPtr = (s.jobs i).qPtr ∧ (s'.jobs i).uPtr = (s.jobs i).uPtr ∧
      pendShare (s'.jobs i) = pendShare (s.jobs i)) (hq : ∀ q, dq q = queueShare (s'.jobs j) q - queueShare (s.jobs j) q)
    (hu : ∀ u, du u = userShare s (s'.jobs j) u - userShare s (s.jobs j) u) : PendSums s' where
  queue q := by
    have hr : ∑ i ∈ s.live.erase j, queueShare (s'.jobs i) q = ∑ i ∈ s.live.erase j, queueShare (s.jobs i) q := by
      refine Finset.sum_congr rfl fun i hi => ?_
      obtain ⟨hqi, -, hpi⟩ := ho i (Finset.ne_of_mem_erase hi)
      rw [queueShare, queueShare, hqi, hpi]
    rw [hs.queue, hl, h.queue, hq, ← Finset.add_sum_erase _ _ hj, ← Finset.add_sum_erase _ _ hj, hr]
    ring
  user u := by
    have hg : userShare s' = userShare s := by
      funext x v
      rw [userShare, userShare, hs.gPtr]
    have hr : ∑ i ∈ s.live.erase j, userShare s (s'.jobs i) u = ∑ i ∈ s.live.erase j, userShare s (s.jobs i) u := by
      refine Finset.sum_congr rfl fun i hi => ?_
      obtain ⟨-, hui, hpi⟩ := ho i (Finset.ne_of_mem_erase hi)
      rw [userShare, userShare, hui, hpi]
    rw [hs.user, hl, hg, h.user, hu, ← Finset.add_sum_erase _ _ hj, ← Finset.add_sum_erase _ _ hj, hr]
    ring

end

/-- The jobs with the submission of `j`: other elements of its array. -/
structure Sharing (s : Mbd) (j : JobRef) (sharers : Finset JobRef) : Prop where
  self : j ∉ sharers
  jobBill : ∀ i ∈ sharers, (s.jobs i).jobBill = (s.jobs j).jobBill
  element : sharers.Nonempty → LSB_ARRAY_IDX (s.jobs j).jobId ≠ 0

/-- What a pending job is counted for once it has given back what it reserves. -/
def owed (jp : JData) : Int := pendShare jp + released jp

/-- An ended job is counted off for what it is counted for; one that goes on has the default processors of its queue, or
is no element and reserves its slots. -/
def DispOk (C : Config) (env : DispEnv) (defProcLimit : Nat) (jp : JData) : Prop :=
  env.ready2 = true →
    if env.aborts jp then
      (jp.restoreSub C).maxNumProcessors = owed jp ∧ ((jp.restoreSub C).qPtr = jp.qPtr ∨ owed jp = 0) ∧
        ((jp.restoreSub C).maxNumProcessors = jp.maxNumProcessors ∨ LSB_ARRAY_IDX jp.jobId = 0)
    else
      jp.jobBill.useDefProclimit = true →
        defProcs defProcLimit = jp.jobBill.maxNumProcessors ∨ jp.jStatus.reserve = true ∧ LSB_ARRAY_IDX jp.jobId = 0
  deriving Decidable

section

variable {C : Config} {env : DispEnv} {now : Int} {j : JobRef} {s : Mbd}

theorem readyToDisp_abort (hph : (s.jobs j).phase = some .pending) (hr : env.ready2 = true)
    (ha : env.aborts (s.jobs j) = true) :
    (readyToDisp C env now sharers j s).2.2 = share sharers j (jobAbort C now j s) := by
  have hpend := isPend_of_phase hph
  simp [readyToDisp, hpend, hr, ha]

theorem readyToDisp_go (hph : (s.jobs j).phase = some .pending) (hr : env.ready2 = true)
    (ha : env.aborts (s.jobs j) = false) : ∃ r : Nat, (readyToDisp C env now sharers j s).2.2 =
      (share sharers j (s.modJob j (·.setDefProcs (s.queues (s.jobs j).qPtr).defProcLimit))).modJob j
        fun jp => { jp with newReason := r } := by
  have hpend := isPend_of_phase hph
  simp only [readyToDisp, hpend, hr, ha, not_true_eq_false, Bool.false_eq_true, if_false]
  exact ⟨_, rfl⟩

theorem pendShare_jobBill {bill : JobBill} (h : (bill.maxNumProcessors : Int) = jp.maxNumProcessors) :
    pendShare { jp with jobBill := bill } = pendShare jp := by
  unfold pendShare
  simp only [JData.maxNumProcessors] at h ⊢
  rw [h]

theorem abort_keeps (hph : (s.jobs j).phase = some .pending) (hj : j ∈ s.live) (h : PendSums s)
    (hs : Sharing s j sharers) (hmax : ((s.jobs j).restoreSub C).maxNumProcessors = owed (s.jobs j))
    (hque : ((s.jobs j).restoreSub C).qPtr = (s.jobs j).qPtr ∨ owed (s.jobs j) = 0)
    (he : ((s.jobs j).restoreSub C).maxNumProcessors = (s.jobs j).maxNumProcessors ∨
      LSB_ARRAY_IDX (s.jobs j).jobId = 0) : PendSums (share sharers j (jobAbort C now j s)) := by
  have ho := pendShare_nonneg (s.jobs j)
  have hrel := released_nonneg (s.jobs j)
  have hn (q : QRef) : 0 ≤ (s.queues q).count .numPEND := (queueShare_nonneg _ q).trans (h.queue_le hj q)
  have hn' (u : URef) : 0 ≤ (s.users u).count .numPEND := (userShare_nonneg s _ u).trans (h.user_le hj u)
  have hr : ((s.jobs j).restoreSub C).maxNumProcessors ≤
      (s.queues ((s.jobs j).restoreSub C).qPtr).count .numPEND +
        toQueue (s.jobs j).qPtr (released (s.jobs j)) ((s.jobs j).restoreSub C).qPtr := by
    rcases hque with hq | hz
    · have hle := h.queue_le hj (s.jobs j).qPtr
      simp only [queueShare, if_true] at hle
      rw [hq, hmax, owed, toQueue, if_pos rfl]
      omega
    · rw [hmax, hz]
      exact add_nonneg (hn _) (toQueue_nonneg hrel _)
  have hr' (u : URef) : 0 ≤ (s.users u).count .numPEND +
      toUser s (s.jobs j).uPtr (released (s.jobs j) - ((s.jobs j).restoreSub C).maxNumProcessors) u := by
    have hle := h.user_le hj u
    rw [hmax, owed, toUser, show released (s.jobs j) - (pendShare (s.jobs j) + released (s.jobs j)) =
      -pendShare (s.jobs j) by ring, mul_neg]
    exact sub_nonneg.mpr hle
  have hshi := @jobAbort_shift C now j s hph hn hn' hr hr'
  obtain ⟨hl, ho, hg, hb⟩ := @jobAbort_jobs C now j s hph
  have hjob : (share sharers j (jobAbort C now j s)).jobs j = (jobAbort C now j s).jobs j := if_neg hs.self
  refine h.of_shift hj ⟨hshi.queue, hshi.user, hshi.gPtr⟩ hl (fun i hi => ?_) (fun q => ?_) fun u => ?_
  · by_cases hmem : i ∈ sharers
    · have hsame := he.resolve_right (hs.element ⟨i, hmem⟩)
      have heq : (share sharers j (jobAbort C now j s)).jobs i =
          { s.jobs i with jobBill := ((jobAbort C now j s).jobs j).jobBill } := by
        rw [← ho i hi]
        exact if_pos hmem
      rw [heq]
      refine ⟨rfl, rfl, pendShare_jobBill ?_⟩
      rw [JData.maxNumProcessors, hs.jobBill i hmem]
      exact hb.trans hsame
    · have heq : (share sharers j (jobAbort C now j s)).jobs i = s.jobs i := (if_neg hmem).trans (ho i hi)
      rw [heq]
      exact ⟨rfl, rfl, rfl⟩
  · rw [hjob]
    simp only [queueShare, hg, toQueue, ite_self, hmax, owed]
    rcases hque with hq | hz
    · rw [hq]
      by_cases h' : (s.jobs j).qPtr = q
      · simp [h']
      · simp [h', Ne.symm h']
    · obtain ⟨ho, hr⟩ : pendShare (s.jobs j) = 0 ∧ released (s.jobs j) = 0 := by
        unfold owed at hz
        omega
      simp [ho, hr]
  · rw [hjob]
    simp only [userShare, toUser, hg, hmax, owed]
    ring

theorem setDefProcs_share
    (h : jp.jobBill.useDefProclimit = true → defProcs d = jp.jobBill.maxNumProcessors ∨ jp.jStatus.reserve = true) :
    pendShare (jp.setDefProcs d) = pendShare jp := by
  unfold JData.setDefProcs
  split_ifs with hu
  · rcases h hu with hmax | hr
    · exact pendShare_jobBill (by simp [JData.maxNumProcessors, hmax])
    · simp [pendShare, hr]
  · rfl

theorem setDefProcs_keeps (d : Nat) (jp : JData) : (jp.setDefProcs d).qPtr = jp.qPtr ∧ (jp.setDefProcs d).uPtr = jp.uPtr := by
  unfold JData.setDefProcs
  split_ifs <;> exact ⟨rfl, rfl⟩

theorem go_jobs (hs : j ∉ sharers) (f : JData → JData) (r : Nat) :
    let s' := (share sharers j (s.modJob j f)).modJob j fun jp => { jp with newReason := r }
    s'.jobs j = { f (s.jobs j) with newReason := r } ∧
      ∀ i, i ≠ j → s'.jobs i = if i ∈ sharers then { s.jobs i with jobBill := (f (s.jobs j)).jobBill } else s.jobs i := by
  have hj : (share sharers j (s.modJob j f)).jobs j = f (s.jobs j) := (if_neg hs).trans (modJob_job s j f)
  refine ⟨by rw [modJob_job, hj], fun i hi => ?_⟩
  have hi' : (s.modJob j f).jobs i = s.jobs i := setJob_other s j _ i hi
  rw [Mbd.modJob, setJob_other _ j _ i hi]
  simp only [share, hi', modJob_job]

theorem go_keeps (hj : j ∈ s.live) (h : PendSums s) (hs : Sharing s j sharers) (r d : Nat)
    (hok : (s.jobs j).jobBill.useDefProclimit = true → defProcs d = (s.jobs j).jobBill.maxNumProcessors ∨
      (s.jobs j).jStatus.reserve = true ∧ LSB_ARRAY_IDX (s.jobs j).jobId = 0) :
    PendSums ((share sharers j (s.modJob j (·.setDefProcs d))).modJob j fun jp => { jp with newReason := r }) := by
  obtain ⟨hjob, hoth⟩ := @go_jobs j s sharers hs.self (·.setDefProcs d) r
  have ho : pendShare ((s.jobs j).setDefProcs d) = pendShare (s.jobs j) :=
    setDefProcs_share fun huse => (hok huse).imp_right And.left
  obtain ⟨hq, hu⟩ := setDefProcs_keeps d (s.jobs j)
  have hshi : Shift s ((share sharers j (s.modJob j (·.setDefProcs d))).modJob j fun jp => { jp with newReason := r })
      (fun _ => 0) fun _ => 0 := ⟨fun _ => (add_zero _).symm, fun _ => (add_zero _).symm, fun _ => rfl⟩
  refine h.of_shift hj hshi rfl (fun i hi => ?_) (fun q => ?_) fun u => ?_
  · rw [hoth i hi]
    split_ifs with hmem
    · refine ⟨rfl, rfl, pendShare_jobBill ?_⟩
      rw [JData.maxNumProcessors, hs.jobBill i hmem, Int.ofNat_inj]
      unfold JData.setDefProcs
      split_ifs with huse
      · exact (hok huse).resolve_right fun h' => hs.element ⟨i, hmem⟩ h'.2
      · rfl
    · exact ⟨rfl, rfl, rfl⟩
  · rw [hjob]
    change 0 = queueShare ((s.jobs j).setDefProcs d) q - _
    rw [queueShare, queueShare, hq, ho, sub_self]
  · rw [hjob]
    change 0 = userShare s ((s.jobs j).setDefProcs d) u - _
    rw [userShare, userShare, hu, ho, sub_self]

end

/-- The job and one other, with the counters that their submissions give. -/
def scene (j : JobRef) (d : Nat) (jp kp : JData) : Mbd where
  jobs i := if i = j then jp else kp
  live := {j, j + 1}
  queues q :=
    { count := fun c => if c = .numPEND then queueShare jp q + queueShare kp q else 0, defProcLimit := d }
  users u :=
    { count := fun c => if c = .numPEND then
        (if jp.uPtr = u then pendShare jp else 0) + (if kp.uPtr = u then pendShare kp else 0) else 0 }
  hosts _ := { maxJobs := 0 }

section

theorem scene_job : (scene j d jp kp).jobs j = jp := if_pos rfl

theorem scene_other : (scene j d jp kp).jobs (j + 1) = kp := if_neg (Nat.succ_ne_self j)

theorem scene_live : j ∈ (scene j d jp kp).live := Finset.mem_insert_self j _

theorem scene_sum (f : JobRef → Int) : ∑ i ∈ (scene j d jp kp).live, f i = f j + f (j + 1) :=
  Finset.sum_pair (Nat.succ_ne_self j).symm

theorem count_singleton (u0 u : URef) (x : Int) : (([u0].count u : Nat) : Int) * x = if u0 = u then x else 0 := by
  by_cases h : u0 = u <;> simp [h]

theorem scene_userShare (x : JData) (u : URef) :
    userShare (scene j d jp kp) x u = if x.uPtr = u then pendShare x else 0 := count_singleton _ _ _

theorem scene_toUser (u0 u : URef) (x : Int) : toUser (scene j d jp kp) u0 x u = if u0 = u then x else 0 :=
  count_singleton _ _ _

theorem scene_pendSums : PendSums (scene j d jp kp) where
  queue q := by
    rw [scene_sum, scene_job, scene_other]
    rfl
  user u := by
    rw [scene_sum, scene_job, scene_other, scene_userShare, scene_userShare]
    rfl

theorem scene_sharing_none : Sharing (scene j d jp kp) j ∅ := ⟨Finset.notMem_empty j, nofun, by simp⟩

theorem scene_sharing (hb : kp.jobBill = jp.jobBill) (hi : LSB_ARRAY_IDX jp.jobId ≠ 0) :
    Sharing (scene j d jp kp) j {j + 1} where
  self := by simp
  jobBill i hi := by
    rw [Finset.mem_singleton.mp hi, scene_job, scene_other, hb]
  element _ := by rwa [scene_job]

theorem scene_abort (hrp : jp.restoreSub C = rp) (hph : jp.phase = some .pending) (hu : kp.uPtr = jp.uPtr) (hself : j ∉ sharers)
    (hr : rp.maxNumProcessors ≤ queueShare jp rp.qPtr + queueShare kp rp.qPtr + toQueue jp.qPtr (released jp) rp.qPtr)
    (hr' : 0 ≤ pendShare jp + pendShare kp + (released jp - rp.maxNumProcessors))
    (h : PendSums (share sharers j (jobAbort C now j (scene j d jp kp)))) :
    ∃ bill : JobBill, (bill.maxNumProcessors : Int) = rp.maxNumProcessors ∧ (∀ q, queueShare jp q + queueShare kp q +
          (toQueue jp.qPtr (released jp) q - toQueue rp.qPtr rp.maxNumProcessors q) =
        queueShare (if j + 1 ∈ sharers then { kp with jobBill := bill } else kp) q) ∧
      pendShare jp + pendShare kp + (released jp - rp.maxNumProcessors) =
        pendShare (if j + 1 ∈ sharers then { kp with jobBill := bill } else kp) := by
  subst hrp
  have hj : (scene j d jp kp).jobs j = jp := scene_job
  have hph' : ((scene j d jp kp).jobs j).phase = some .pending := by rw [hj, hph]
  have hs : PendSums (scene j d jp kp) := scene_pendSums
  have hshi := @jobAbort_shift C now j (scene j d jp kp) hph'
    (fun q => (queueShare_nonneg _ q).trans (hs.queue_le scene_live q))
    (fun u => (userShare_nonneg _ _ u).trans (hs.user_le scene_live u)) (by rw [hj]; exact hr) (fun u => by
      rw [hj, scene_toUser]
      change 0 ≤ (if jp.uPtr = u then pendShare jp else 0) + (if kp.uPtr = u then pendShare kp else 0) + _
      rw [hu]
      split_ifs
      · exact hr'
      · exact le_rfl)
  obtain ⟨hl, ho, hg, hb⟩ := @jobAbort_jobs C now j (scene j d jp kp) hph'
  rw [hj] at hshi hb
  set s' := share sharers j (jobAbort C now j (scene j d jp kp)) with hs'
  have hj' : pendShare (s'.jobs j) = 0 := by
    rw [show s'.jobs j = (jobAbort C now j (scene j d jp kp)).jobs j from
      if_neg hself, hg]
  have hkp : s'.jobs (j + 1) =
      if j + 1 ∈ sharers then { kp with jobBill := ((jobAbort C now j (scene j d jp kp)).jobs j).jobBill } else kp := by
    simp only [hs', share, ho (j + 1) (Nat.succ_ne_self j), scene_other]
  have hl' : s'.live = (scene j d jp kp).live := hl
  refine ⟨_, hb, fun q => ?_, ?_⟩
  · have hq := h.queue q
    rw [hl', scene_sum, hkp, queueShare, hj', ite_self, zero_add] at hq
    exact (hshi.queue q).symm.trans hq
  · have huser := h.user jp.uPtr
    have hg : userShare s' = userShare (scene j d jp kp) := by
      funext x v
      rw [userShare, userShare, ← hshi.gPtr]
      rfl
    rw [hl', scene_sum, hkp, hg, scene_userShare, hj', ite_self, zero_add, scene_userShare] at huser
    have hc := hshi.user jp.uPtr
    rw [scene_toUser, if_pos rfl] at hc
    have hb : ((scene j d jp kp).users jp.uPtr).count .numPEND = pendShare jp + pendShare kp := by
      change (if jp.uPtr = jp.uPtr then pendShare jp else 0) + (if kp.uPtr = jp.uPtr then pendShare kp else 0) = _
      rw [if_pos rfl, if_pos hu]
    rw [hb] at hc
    refine hc.symm.trans (huser.trans (if_pos ?_))
    split_ifs <;> exact hu

theorem scene_go (hq : kp.qPtr = jp.qPtr) (hs : j ∉ sharers) (r : Nat)
    (h : PendSums ((share sharers j ((scene j d jp kp).modJob j (·.setDefProcs d))).modJob j fun jp => { jp with newReason := r })) :
    pendShare jp + pendShare kp = pendShare (jp.setDefProcs d) +
      pendShare (if j + 1 ∈ sharers then { kp with jobBill := (jp.setDefProcs d).jobBill } else kp) := by
  obtain ⟨hj, ho⟩ := @go_jobs j (scene j d jp kp) sharers hs (·.setDefProcs d) r
  have hs := h.queue jp.qPtr
  have hl : ((share sharers j ((scene j d jp kp).modJob j (·.setDefProcs d))).modJob j
      fun jp => { jp with newReason := r }).live = (scene j d jp kp).live := rfl
  rw [hl, scene_sum, hj, ho (j + 1) (Nat.succ_ne_self j), scene_job, scene_other] at hs
  have hb : queueShare jp jp.qPtr + queueShare kp jp.qPtr = pendShare jp + pendShare kp := by
    rw [queueShare, queueShare, if_pos rfl, if_pos hq]
  refine hb.symm.trans (hs.trans (congrArg₂ (· + ·) (if_pos (setDefProcs_keeps d jp).1) (if_pos ?_)))
  split_ifs <;> exact hq

end

/-- For a job and the default limit of its queue: whatever else holds, the check keeps the sums. -/
def KeepsSums (C : Config) (env : DispEnv) (now : Int) (j : JobRef) (defProcLimit : Nat) (jp : JData) : Prop :=
  ∀ s sharers, j ∈ s.live → s.jobs j = jp → (s.queues jp.qPtr).defProcLimit = defProcLimit → Sharing s j sharers →
    PendSums s → PendSums (readyToDisp C env now sharers j s).2.2

section

variable {jp : JData}

def besides (jp : JData) (q : QRef) (bill : JobBill) : JData :=
  { jp with qPtr := q, jStatus := { mask := .PEND }, jobBill := bill }

theorem besides_uPtr (q : QRef) (bill : JobBill) : (besides jp q bill).uPtr = jp.uPtr := rfl

theorem besides_share (q : QRef) (bill : JobBill) : pendShare (besides jp q bill) = bill.maxNumProcessors := rfl

theorem KeepsSums.abort (h : KeepsSums C env now j d jp) (hph : jp.phase = some .pending) (hr : env.ready2 = true)
    (ha : env.aborts jp = true) (kp : JData) (hs : Sharing (scene j d jp kp) j sharers) :
    PendSums (share sharers j (jobAbort C now j (scene j d jp kp))) := by
  have hj : (scene j d jp kp).jobs j = jp := scene_job
  have hsums := h (scene j d jp kp) sharers scene_live hj rfl hs scene_pendSums
  rwa [readyToDisp_abort (by rw [hj, hph]) hr (by rw [hj, ha])] at hsums

theorem KeepsSums.restored (h : KeepsSums C env now j d jp) (hph : jp.phase = some .pending) (hrea : env.ready2 = true)
    (ha : env.aborts jp = true) :
    (jp.restoreSub C).maxNumProcessors = owed jp ∧ ((jp.restoreSub C).qPtr = jp.qPtr ∨ owed jp = 0) ∧
      ((jp.restoreSub C).maxNumProcessors = jp.maxNumProcessors ∨ LSB_ARRAY_IDX jp.jobId = 0) := by
  obtain ⟨rp, hrp⟩ : ∃ rp, jp.restoreSub C = rp := ⟨_, rfl⟩
  rw [hrp]
  have ho := pendShare_nonneg jp
  have hr := released_nonneg jp
  have hque : 0 ≤ toQueue jp.qPtr (released jp) rp.qPtr := toQueue_nonneg hr _
  -- a second job of as many slots in the queue of the installed submission leaves room for any posting
  have hr : rp.maxNumProcessors ≤ queueShare jp rp.qPtr +
      queueShare (besides jp rp.qPtr rp.jobBill) rp.qPtr +
        toQueue jp.qPtr (released jp) rp.qPtr := by
    have h1 := queueShare_nonneg jp rp.qPtr
    have h2 : queueShare (besides jp rp.qPtr rp.jobBill) rp.qPtr =
        rp.maxNumProcessors := if_pos rfl
    omega
  have hr' : 0 ≤ pendShare jp + pendShare (besides jp rp.qPtr rp.jobBill) +
      (released jp - rp.maxNumProcessors) := by
    rw [besides_share]
    simp only [JData.maxNumProcessors]
    omega
  obtain ⟨_, -, hqs, hus⟩ := scene_abort hrp hph (besides_uPtr _ _) (Finset.notMem_empty j) hr hr'
    (h.abort hph hrea ha (besides jp rp.qPtr rp.jobBill) scene_sharing_none)
  rw [if_neg (Finset.notMem_empty _), besides_share] at hus
  have ho : rp.maxNumProcessors = owed jp := by
    simp only [owed, JData.maxNumProcessors] at hus ⊢
    omega
  have hpla : rp.qPtr = jp.qPtr ∨ owed jp = 0 := by
    by_contra hne
    obtain ⟨hq, hne⟩ := not_or.mp hne
    have hque := hqs jp.qPtr
    rw [if_neg (Finset.notMem_empty _)] at hque
    simp only [queueShare, besides, toQueue, if_neg (Ne.symm hq), if_true] at hque
    omega
  refine ⟨ho, hpla, ?_⟩
  -- an element that pends beside it reads the installed submission
  by_contra hne
  obtain ⟨hmax, hi⟩ := not_or.mp hne
  have hr2 : rp.maxNumProcessors ≤ queueShare jp rp.qPtr +
      queueShare (besides jp rp.qPtr jp.jobBill) rp.qPtr +
        toQueue jp.qPtr (released jp) rp.qPtr := by
    have h1 := queueShare_nonneg (besides jp rp.qPtr jp.jobBill) rp.qPtr
    rcases hpla with hq | hz
    · have h2 : queueShare jp rp.qPtr = pendShare jp := if_pos hq.symm
      have h3 : toQueue jp.qPtr (released jp) rp.qPtr = released jp := if_pos hq
      omega
    · have h2 := queueShare_nonneg jp rp.qPtr
      omega
  have hr2' : 0 ≤ pendShare jp + pendShare (besides jp rp.qPtr jp.jobBill) +
      (released jp - rp.maxNumProcessors) := by
    rw [besides_share, ho, owed]
    omega
  obtain ⟨bill, hb, -, hus'⟩ := scene_abort hrp hph (besides_uPtr _ _) (by simp) hr2 hr2'
    (h.abort hph hrea ha (besides jp rp.qPtr jp.jobBill) (scene_sharing rfl hi))
  rw [if_pos (Finset.mem_singleton_self _), besides_share] at hus'
  have hs : pendShare { besides jp rp.qPtr jp.jobBill with jobBill := bill } = bill.maxNumProcessors := rfl
  rw [hs, hb, ho, owed] at hus'
  refine hmax ?_
  rw [ho, owed]
  change pendShare jp + released jp = (jp.jobBill.maxNumProcessors : Int)
  omega

theorem KeepsSums.defaulted (h : KeepsSums C env now j d jp) (hph : jp.phase = some .pending) (hrea : env.ready2 = true)
    (ha : env.aborts jp = false) (hu : jp.jobBill.useDefProclimit = true) :
    defProcs d = jp.jobBill.maxNumProcessors ∨ jp.jStatus.reserve = true ∧ LSB_ARRAY_IDX jp.jobId = 0 := by
  have hgo (kp : JData) (hq : kp.qPtr = jp.qPtr) (sharers : Finset JobRef) (hs : Sharing (scene j d jp kp) j sharers) :
      pendShare jp + pendShare kp = pendShare (jp.setDefProcs d) +
        pendShare (if j + 1 ∈ sharers then { kp with jobBill := (jp.setDefProcs d).jobBill } else kp) := by
    have hj : (scene j d jp kp).jobs j = jp := scene_job
    have hsums := h (scene j d jp kp) sharers scene_live hj rfl hs scene_pendSums
    obtain ⟨r, hr⟩ := @readyToDisp_go C env now j (scene j d jp kp) sharers (by rw [hj, hph]) hrea (by rw [hj, ha])
    rw [hr] at hsums
    exact scene_go hq hs.self r hsums
  have hpend := isPend_of_phase hph
  have hset : jp.setDefProcs d = { jp with jobBill := { jp.jobBill with
      numProcessors := defProcs d, maxNumProcessors := defProcs d } } := if_pos hu
  cases hr : jp.jStatus.reserve with
  | false =>
    -- the job alone
    have heq := hgo { jp with jStatus := { mask := .EXIT } } rfl ∅ scene_sharing_none
    rw [if_neg (Finset.notMem_empty _), hset] at heq
    simp only [pendShare, hpend, hr, and_self, if_true, JData.maxNumProcessors] at heq
    exact .inl (by omega)
  | true =>
    by_contra hne
    obtain ⟨hmax, hi⟩ := not_or.mp hne
    have heq := hgo (besides jp jp.qPtr jp.jobBill) rfl {j + 1} (scene_sharing rfl (by simpa using hi))
    rw [if_pos (Finset.mem_singleton_self _), hset, besides_share] at heq
    simp [pendShare, hr, besides, PEND, isPend, JData.maxNumProcessors] at heq
    exact hmax heq.symm

end

/-- The check keeps the sums exactly under the condition on the job and its queue. -/
theorem readyToDisp_keeps_iff (C : Config) (env : DispEnv) (now : Int) (j : JobRef) (defProcLimit : Nat) {jp : JData}
    (hph : jp.phase = some .pending) : KeepsSums C env now j defProcLimit jp ↔ DispOk C env defProcLimit jp := by
  constructor
  · intro h hrea
    cases ha : env.aborts jp with
    | true => exact h.restored hph hrea ha
    | false => exact h.defaulted hph hrea ha
  · rintro hok s sharers hj rfl rfl hsha hs
    cases hrea : env.ready2 with
    | false =>
      have hpend := isPend_of_phase hph
      simpa [readyToDisp, hpend, hrea] using hs
    | true =>
      have hok := hok hrea
      cases ha : env.aborts (s.jobs j) with
      | true =>
        rw [if_pos ha] at hok
        rw [readyToDisp_abort hph hrea ha]
        exact abort_keeps hph hj hs hsha hok.1 hok.2.1 hok.2.2
      | false =>
        rw [if_neg (by simp [ha])] at hok
        obtain ⟨r, hr⟩ := @readyToDisp_go C env now j s sharers hph hrea ha
        rw [hr]
        exact go_keeps hj hs hsha r _ hok

/-- A pending job that asks for no processors, submitted when the queue gave some. -/
def usesDefault : JData where
  jobId := 1
  jStatus := { mask := .PEND }
  jobBill := { queue := 0, useDefProclimit := true }
  qPtr := 0
  uPtr := 0

theorem readyToDisp_keeps_one : KeepsSums {} {} 0 0 1 usesDefault :=
  (readyToDisp_keeps_iff {} {} 0 0 1 rfl).mpr (by decide)

/-- The queue gives four now. -/
theorem readyToDisp_default_changed : ¬ KeepsSums {} {} 0 0 4 usesDefault := by
  intro h
  have hmax := h.defaulted rfl rfl rfl rfl
  exact absurd hmax (by decide)

end OpenLava

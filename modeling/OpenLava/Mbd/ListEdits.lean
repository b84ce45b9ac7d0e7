import OpenLava.Mbd.Links

/-!
# Edits of the job lists

Every operation edits the job lists in the same few ways: it takes a job out of the list it is in, it puts a job that is
in no list where the priorities ascend, or it puts a finished job in front of `FJL`, which the list package does not
see.
-/

namespace OpenLava

open List Mask Segments

def jobKey (s : Mbd) (j : JobRef) : Int := (s.queues (s.jobs j).qPtr).priority

def FitsAt (s : Mbd) (j : JobRef) (k : Nat) (entries : List JobRef) : Prop :=
  (∀ i ∈ entries.take k, jobKey s i ≤ jobKey s j) ∧ ∀ i ∈ entries.drop k, jobKey s j ≤ jobKey s i

/-- The lists are edited, with so many insertions that the list package does not see. -/
inductive Edits : Nat → Mbd → Mbd → Prop where
  | rest {s s' : Mbd} (hlists : s'.lists = s.lists) (hends : s'.ends = s.ends) (hreplay : s'.replay = s.replay)
      (hprio : ∀ q, (s'.queues q).priority = (s.queues q).priority)
      (hkey : ∀ l, l ≠ .FJL → ∀ i ∈ (s.lists l).entries, jobKey s' i = jobKey s i) : Edits 0 s s'
  | off {s : Mbd} {j : JobRef} {l : ListNo} (hj : LinkedIn s j l) : Edits 0 s (offJobList j l s)
  | insert {s : Mbd} {j : JobRef} {l : ListNo} {k : Nat} (hj : Unlinked s j) (hl : l ≠ .FJL)
      (hk : k ≤ (s.lists l).entries.length)
      (hfit : Ascending (jobKey s) (s.lists l).entries → FitsAt s j k (s.lists l).entries) :
      Edits 0 s (listInsertEntryBefore l k j s)
  | finish {s : Mbd} (j : JobRef) : Edits 1 s (inFinishList j s)
  | trans {m n : Nat} {s s' s'' : Mbd} (h : Edits m s s') (h' : Edits n s' s'') : Edits (m + n) s s''

variable {C : Config} {s s' s'' : Mbd} {j : JobRef} {l : ListNo} {n : Nat}

theorem Edits.refl (s : Mbd) : Edits 0 s s := .rest rfl rfl rfl (fun _ => rfl) fun _ _ _ _ => rfl

theorem Edits.then (h : Edits n s s') (h' : Edits 0 s' s'') : Edits n s s'' := h.trans h'

theorem Edits.after (h : Edits 0 s s') (h' : Edits n s' s'') : Edits n s s'' := by
  simpa using h.trans h'

theorem Edits.ite [Decidable c] (h : Edits n s s') (h' : Edits n s s'') : Edits n s (if c then s' else s'') := by
  split_ifs
  · exact h
  · exact h'

/-- The job is in no list that is kept in order. -/
def Apart (s : Mbd) (j : JobRef) : Prop := ∀ l, l ≠ .FJL → j ∉ (s.lists l).entries

theorem Unlinked.apart (h : Unlinked s j) : Apart s j := fun l _ => count_eq_zero.mp (h l)

theorem LinkedIn.apart (h : LinkedIn s j .FJL) : Apart s j := fun l hl hin => hl ((h.mem_iff l).mp hin)

theorem Touches.edits (h : Touches false t j s s') (hq : Apart s j ∨ (s'.jobs j).qPtr = (s.jobs j).qPtr) :
    Edits 0 s s' := by
  refine .rest (h.rest rfl).1 (h.rest rfl).2 h.replay h.prio fun l hl i hi => ?_
  unfold jobKey
  rw [h.prio]
  by_cases hij : i = j
  · subst hij
    rw [hq.resolve_left fun hap => hap l hl hi]
  · rw [h.other i hij]

theorem Edits.modJob (h : Edits n s s') (f : JData → JData) (hq : Apart s' j ∨ (f (s'.jobs j)).qPtr = (s'.jobs j).qPtr) :
    Edits n s (s'.modJob j f) :=
  h.then (((Touches.refl false true j s').modJob f (by simp)).edits (by rwa [modJob_job]))

theorem Edits.of_eq (hl : s'.lists = s.lists) (he : s'.ends = s.ends) (hr : s'.replay = s.replay)
    (hprio : ∀ q, (s'.queues q).priority = (s.queues q).priority) (hj : ∀ i, (s'.jobs i).qPtr = (s.jobs i).qPtr) :
    Edits 0 s s' :=
  .rest hl he hr hprio fun l _ i _ => by rw [jobKey, jobKey, hprio, hj]

theorem Edits.updJgrp (h : Edits n s s') (node : NodeRef) (old new : Option Mask) :
    Edits n s (updJgrpCountByJStatus node old new s') :=
  h.then (.of_eq rfl rfl rfl (fun _ => rfl) fun _ => rfl)

theorem Edits.countPending (h : Edits n s s') (jp : JData) : Edits n s (countPending jp s') :=
  h.then (((Touches.refl false false 0 s').countPending jp).edits (.inr (by rw [countPending_jobs])))

theorem fits_cons {i : JobRef} {k : Nat} {entries : List JobRef} (hi : jobKey s i ≤ jobKey s j) (h : FitsAt s j k entries) :
    FitsAt s j (k + 1) (i :: entries) := by
  refine ⟨fun i' hi' => ?_, h.2⟩
  rcases mem_cons.mp hi' with rfl | hi'
  · exact hi
  · exact h.1 i' hi'

theorem fits_zero {i : JobRef} {entries : List JobRef} (hi : jobKey s j ≤ jobKey s i)
    (ha : Ascending (jobKey s) (i :: entries)) : FitsAt s j 0 (i :: entries) := by
  refine ⟨by simp, fun i' hi' => ?_⟩
  rcases mem_cons.mp hi' with rfl | hi'
  · exact hi
  · exact hi.trans ((pairwise_cons.mp ha).1 i' hi')

theorem fits_nil (s : Mbd) (j : JobRef) (k : Nat) : FitsAt s j k [] := by simp [FitsAt]

theorem pendScan_key (time : Int) (i : JobRef) : match pendScan C s time (s.jobs j) (s.jobs i) with
    | .stop => jobKey s j ≤ jobKey s i
    | .skip => jobKey s i ≤ jobKey s j
    | .pass => jobKey s i = jobKey s j := by
  unfold pendScan jobKey
  grind

theorem pendIndex_fits {scan : JobRef → ScanStep} (hs : ∀ i, match scan i with
    | .stop => jobKey s j ≤ jobKey s i
    | .skip => jobKey s i ≤ jobKey s j
    | .pass => jobKey s i = jobKey s j) (same : JobRef → Bool) (entries : List JobRef)
    (ha : Ascending (jobKey s) entries) : FitsAt s j (pendIndex scan same entries) entries := by
  induction entries with
  | nil => exact fits_nil s j _
  | cons i rest ih =>
    have hi := hs i
    have ih := ih (pairwise_cons.mp ha).2
    unfold pendIndex
    cases hc : scan i with
    | stop =>
      rw [hc] at hi
      exact fits_zero hi ha
    | skip =>
      rw [hc] at hi
      exact fits_cons hi ih
    | pass =>
      rw [hc] at hi
      cases rest with
      | nil => exact fits_cons hi.le (fits_nil s j 0)
      | cons next rest =>
        dsimp only
        split
        · refine fits_cons hi.le (fits_zero ?_ (pairwise_cons.mp ha).2)
          exact hi ▸ (pairwise_cons.mp ha).1 next (by simp)
        · exact fits_cons hi.le ih

theorem findIdx_fits (hs : ∀ i, if stop i then jobKey s j ≤ jobKey s i else jobKey s i ≤ jobKey s j)
    (entries : List JobRef) (ha : Ascending (jobKey s) entries) : FitsAt s j (entries.findIdx stop) entries := by
  induction entries with
  | nil => exact fits_nil s j _
  | cons i rest ih =>
    have hi := hs i
    rw [findIdx_cons]
    cases hc : stop i with
    | true =>
      rw [hc] at hi
      exact fits_zero hi ha
    | false =>
      rw [hc] at hi
      exact fits_cons hi (ih (pairwise_cons.mp ha).2)

theorem Unlinked.pendEdits (h : Unlinked s j) (hl : l ≠ .FJL) (time : Int) :
    Edits 0 s (OpenLava.inPendJobList C j l time s) := by
  have hf : Edits 0 s (s.modJob j fun job => { job with sigDelRequeue := false }) :=
    (Edits.refl s).modJob _ (.inr rfl)
  refine hf.after (Edits.insert (s := s.modJob j _) h hl (pendIndex_le _ _ _) fun ha => ?_)
  refine pendIndex_fits (fun i => ?_) _ _ ha
  -- the scan compares with the record before its flag was cleared
  have hs := pendScan_key (C := C) (s := s.modJob j fun job => { job with sigDelRequeue := false }) (j := j)
    (if time ≠ 0 ∧ l = .PJL ∧ (C.requeueToBottom ∨ (s.jobs j).sigDelRequeue) then time
      else (s.jobs j).jobBill.submitTime) i
  rw [modJob_job] at hs
  exact hs

theorem Unlinked.startEdits (h : Unlinked s j) : Edits 0 s (OpenLava.inStartJobList j s) := by
  refine .insert h (by decide) findIdx_le_length (findIdx_fits (fun i => ?_) _)
  unfold jobKey
  split_ifs with hs
  · rw [decide_eq_true_eq] at hs
    omega
  · rw [decide_eq_true_eq] at hs
    omega

theorem Unlinked.pendOrMigEdits (h : Unlinked s j) (migTime pendTime : Int) :
    Edits 0 s (OpenLava.inPendOrMigList C j migTime pendTime s) := by
  unfold OpenLava.inPendOrMigList
  split_ifs
  · exact (h.pendEdits (by decide) _).modJob _ (.inr rfl)
  · exact h.pendEdits (by decide) _
  · exact h.pendEdits (by decide) _

theorem PJLorMJL_eq (h : LinkedIn s j l) (hl : Belongs .pending l) : PJLorMJL j s = l := by
  unfold PJLorMJL
  rcases hl with rfl | rfl
  · rw [if_neg]
    rw [h.mem_iff]
    decide
  · rw [if_pos ((h.mem_iff _).mpr rfl)]

variable {ph ph' : Phase}

theorem LinkedIn.startEdits (h : LinkedIn s j l) (hl : Belongs .pending l) : Edits 0 s (OpenLava.moveToStart j s) := by
  unfold OpenLava.moveToStart
  dsimp only
  set f : JData → JData := fun jp =>
    { jp with newReason := 0, reserveTime := 0, jStatus := { jp.jStatus with mig := false } }
  have h1 : LinkedIn (s.modJob j f) j l := h
  rw [PJLorMJL_eq h1 hl]
  exact (((Edits.refl s).modJob f (.inr rfl)).after (.off h1)).then (h1.unlink l).startEdits

theorem LinkedIn.finishEdits (h : LinkedIn s j l) (hl : Belongs ph l) (hold : old.mask.phase = some ph)
    (hf : ph ≠ .finished) : Edits 1 s (OpenLava.moveToFinish C j old s) := by
  unfold OpenLava.moveToFinish handleFinishJob
  dsimp only
  have h1 : LinkedIn ((s.modJob j JData.exitReason).modJob j (·.markRequeue old)) j l := h
  have hr : Edits 0 s ((s.modJob j JData.exitReason).modJob j (·.markRequeue old)) := by
    refine ((Edits.refl s).modJob _ (.inr ?_)).modJob _ (.inr rfl)
    unfold JData.exitReason
    split_ifs <;> rfl
  set s1 := (s.modJob j JData.exitReason).modJob j (·.markRequeue old)
  have hlist : (if old.mask.isStart then ListNo.SJL else PJLorMJL j s1) = l := by
    rw [(phase_reads hold).isStart]
    cases ph with
    | pending => exact PJLorMJL_eq h1 hl
    | running | ssusp | ususp => exact hl.symm
    | finished => exact absurd rfl hf
  rw [hlist]
  have hg := h1.unlink l
  refine (((hr.after (.off h1)).after (.finish j))).modJob _ (.inl ?_)
  exact hg.inFinishList.apart

theorem LinkedIn.backEdits (h : LinkedIn s j .SJL) (now : Int) : Edits 0 s (OpenLava.moveToPend C now j s) := by
  unfold OpenLava.moveToPend
  have hg : Unlinked ((listRemoveEntry .SJL j s).modJob j JData.unstart) j := h.unlink .SJL
  have ho : Edits 0 s ((listRemoveEntry .SJL j s).modJob j JData.unstart) := by
    refine (Edits.off h).modJob _ (.inr ?_)
    unfold JData.unstart
    split_ifs <;> rfl
  exact (ho.after (hg.pendOrMigEdits _ _)).modJob _ (.inr rfl)

theorem LinkedIn.moveEdits (h : LinkedIn s j l) (hl : Belongs ph l) (hold : old.mask.phase = some ph)
    (hm : m.phase = some ph') (hfin : ph ≠ .finished) (now : Int) :
    Edits (if m.isFinish then 1 else 0) s (OpenLava.moveJob C now j old m s) := by
  have hr := phase_reads hold
  have hr' := phase_reads hm
  unfold OpenLava.moveJob
  by_cases hf : m.isFinish
  · have hs : m.isStart = false := by
      rw [hr'.isFinish] at hf
      rw [hr'.isStart]
      simp_all
    rw [if_pos hf, if_neg (by simp [hs]), if_pos hf]
    exact h.finishEdits hl hold hfin
  · rw [if_neg hf, if_neg hf]
    split_ifs with hs hpend hrun
    · have hph : ph = .pending := by simpa [hr.isPend] using hs.2
      exact h.startEdits (hph ▸ hl)
    · have hph : ph = .running ∨ ph = .ssusp ∨ ph = .ususp := by simpa [hr.isStart] using hpend.2
      have hs : l = .SJL := by rcases hph with rfl | rfl | rfl <;> exact hl
      subst hs
      exact h.backEdits now
    · exact (Edits.refl s).modJob _ (.inr rfl)
    · exact .refl s

/-- A chunk member that goes back to the pending list was in `SJL`. -/
theorem LinkedIn.countEdits (h : LinkedIn s j l) (hm : m.phase = some ph') (hl : Belongs ph' l) (logIt : Bool)
    (old : Mask) : Edits 0 s (OpenLava.countJob C logIt j old m s) := by
  unfold OpenLava.countJob
  split
  · exact ((Touches.refl false false j s).updCounters _ _).edits (.inr (by rw [updCounters_jobs]))
  · split
    · rename_i hb
      have hr' := phase_reads hm
      have hph : ph' = .ssusp ∨ ph' = .ususp := by simpa [hr'.ssusp, hr'.ususp] using hb.2.2
      have hs : l = .SJL := by rcases hph with rfl | rfl <;> exact hl
      subst hs
      have hg : Unlinked ((offJobList j .SJL s).modJob j fun jp =>
        { jp with jStatus := { mask := if m.ssusp then .PEND else .PSUSP }, hPtr := [] }) j := h.unlink .SJL
      exact ((Edits.off h).modJob _ (.inr rfl)).after (hg.pendEdits (by decide) 0)
    · exact .refl s

theorem takeReserve_queue (j : JobRef) (s : Mbd) : ((takeReserve j s).jobs j).qPtr = (s.jobs j).qPtr := by
  rw [takeReserve_jobs, modJob_job]
  rfl

theorem dropReserve_queue (j : JobRef) (s : Mbd) : ((dropReserve j s).jobs j).qPtr = (s.jobs j).qPtr := by
  rw [dropReserve_jobs, modJob_job]
  rfl

theorem freeReserveSlots_queue (j : JobRef) (s : Mbd) : ((freeReserveSlots j s).jobs j).qPtr = (s.jobs j).qPtr := by
  by_cases hr : (s.jobs j).jStatus.reserve = true
  · rw [freeReserveSlots_jobs j s hr, modJob_job]
    rfl
  · rw [freeReserveSlots, if_pos hr]

theorem resetReserve_queue (j : JobRef) (m : Mask) (s : Mbd) : ((resetReserve j m s).jobs j).qPtr = (s.jobs j).qPtr := by
  have hf : (((freeReserveSlots j s).modJob j fun jp => { jp with reserveTime := 0 }).jobs j).qPtr =
      (s.jobs j).qPtr := by
    rw [modJob_job]
    exact freeReserveSlots_queue j s
  unfold resetReserve
  dsimp only
  split
  · rfl
  · split <;> split
    · rw [dropReserve_queue, hf]
    · exact hf
    · exact dropReserve_queue j s
    · rfl

theorem setStatus_queue (j : JobRef) (m : Mask) (s : Mbd) : ((setStatus j m s).jobs j).qPtr = (s.jobs j).qPtr := by
  rw [setStatus_job]
  unfold JData.clearTimes
  split_ifs <;> rfl

/-- Whether a status change takes the job into `FJL`. -/
def Finishes (old new : Mask) : Prop := new.known ≠ old.known ∧ new.isFinish
  deriving Decidable

def Unlinks (old new : Mask) : Prop := new.known = old.known ∨ (Relinks old new ∧ old.isFinish = false)
  deriving Decidable

theorem InPlace.statusEdits (h : InPlace s j) (now : Int) (eventTime : Int) (hok : Unlinks (s.jobs j).jStatus.mask m) :
    Edits (if Finishes (s.jobs j).jStatus.mask m then 1 else 0) s (OpenLava.jStatusChange C now j m eventTime s) := by
  unfold OpenLava.jStatusChange
  by_cases hsame : m.known = (s.jobs j).jStatus.mask.known
  · rw [if_pos hsame, if_neg fun hf => hf.1 hsame]
    exact .refl s
  · rw [if_neg hsame]
    obtain ⟨hok, hu⟩ := hok.resolve_left hsame
    obtain ⟨ph, l, hph, hl, hlink⟩ := h
    obtain ⟨ph', hph'⟩ := Option.isSome_iff_exists.mp hok.1
    have hf : ph ≠ .finished := by
      rintro rfl
      rw [(phase_reads hph).isFinish] at hu
      simp at hu
    set s1 := if eventTime = 0 then resetReserve j m s else s with hs1
    have hr : Touches false true j s s1 := ((Touches.refl _ _ j s).resetReserve m).ite (.refl _ _ j s)
    have hq : ((setStatus j m s1).jobs j).qPtr = (s.jobs j).qPtr := by
      rw [setStatus_queue, hs1]
      split
      · exact resetReserve_queue j m s
      · rfl
    have hset := hr.setStatus m
    have hlink1 := hlink.stay hset
    have hmove := hlink1.moveEdits (C := C) hl hph hph' hf now
    obtain ⟨l', hl', hlink2⟩ := hlink1.moveJob (C := C) hl hph hph' hok now
    have hc := hlink2.countEdits (C := C) hph' hl' (eventTime = 0) (s.jobs j).jStatus.mask
    have ha := ((hset.edits (.inr hq)).after hmove).then hc
    have hn : (if Finishes (s.jobs j).jStatus.mask m then 1 else 0) = if m.isFinish then 1 else 0 := by
      simp [Finishes, hsame]
    rw [hn]
    exact (ha.modJob freeExecParams (.inr rfl)).ite ha

theorem suspendRequeued_queue (j : JobRef) (s : Mbd) : ((suspendRequeued j s).jobs j).qPtr = (s.jobs j).qPtr := by
  unfold suspendRequeued
  split_ifs <;> simp [updJgrpCountByJStatus]

theorem LinkedIn.requeueEdits (h : LinkedIn s j .FJL) (time : Int) : Edits 0 s (OpenLava.handleRequeueJob C time j s) := by
  unfold OpenLava.handleRequeueJob
  dsimp only
  set s1 := (updJgrpCountByJStatus ((s.modJob j (·.prepareRequeue C)).jobs j).jgrpNode _ _ _).modJob j _ with hs1
  have hr : Edits 0 s s1 :=
    (((Edits.refl s).modJob (·.prepareRequeue C) (.inl h.apart)).updJgrp _ _ _).modJob _ (.inr rfl)
  have hl1 : LinkedIn s1 j .FJL := h
  have hpend := ((hr.after (.off hl1)).then ((hl1.unlink .FJL).pendEdits (C := C) (l := .PJL) (by decide) time))
  set s2 := inPendJobList C j .PJL time (offJobList j .FJL s1)
  have hs : Edits 0 s2 (suspendRequeued j s2) :=
    (Touches.suspendRequeued (Touches.refl false true j s2)).edits (.inr (suspendRequeued_queue j s2))
  exact ((hpend.then hs).modJob (j := j) freeExecParams (.inr rfl)).countPending _

theorem InPlace.finishedIn (h : InPlace s j) (hf : (s.jobs j).jStatus.mask.isFinish) : LinkedIn s j .FJL := by
  obtain ⟨ph, l, hph, hl, hlink⟩ := h
  obtain rfl : ph = .finished := by simpa [(phase_reads hph).isFinish] using hf
  exact (show l = .FJL from hl) ▸ hlink

theorem InPlace.requeueOneEdits (h : InPlace s j) (now : Int) (req : RequeueReq) :
    Edits 0 s (OpenLava.arrayRequeue1 C now req s j) := by
  unfold OpenLava.arrayRequeue1
  dsimp only
  split
  · have hf : (s.jobs j).jStatus.mask.isFinish := by
      simp only [Mask.isFinish, Bool.or_eq_true]
      tauto
    have hb := ((h.finishedIn hf).requeueEdits (C := C) now).modJob (j := j)
      (fun jp => { jp with startTime := 0, endTime := 0 }) (.inr rfl)
    exact (((hb.updJgrp _ _ _).modJob _ (.inr rfl)).modJob _ (.inr rfl)).ite (hb.modJob _ (.inr rfl))
  · exact ((Edits.refl s).modJob _ (.inr rfl)).ite (.refl s)

theorem Linked.requeueEdits (h : Linked s) (now : Int) (req : RequeueReq) (node : Option NodeRef) (elems : List JobRef)
    (hl : ∀ j ∈ elems, j ∈ s.live) : Edits 0 s (OpenLava.arrayRequeue C now req node elems s) := by
  have hf : Edits 0 s (elems.foldl (OpenLava.arrayRequeue1 C now req) s) := by
    induction elems generalizing s with
    | nil => exact .refl s
    | cons j elems ih =>
      have hj := h.inPlace j (hl j (by simp))
      have ht := (Touches.refl true true j s).arrayRequeue1 C now req
      refine (hj.requeueOneEdits now req).then (ih (h.touch ht (hj.arrayRequeue1 now req) (hl j (by simp))) fun i hi => ?_)
      rw [ht.live]
      exact hl i (by simp [hi])
  exact (Edits.refl s).ite hf

theorem InPlace.queueEndEdits (h : InPlace s j) (q : QRef) : Edits 0 s (OpenLava.jobInQueueEnd C j q s) := by
  obtain ⟨ph, l, hph, hl, hlink⟩ := h
  have hr := phase_reads hph
  unfold OpenLava.jobInQueueEnd
  dsimp only
  rw [hr.isFinish, hr.isPend]
  set f : JData → JData := fun job => { job with qPtr := q, jobBill := { job.jobBill with queue := q } }
  have ho : Edits 0 s ((offJobList j l s).modJob j f) := (Edits.off hlink).modJob f (.inl (hlink.unlink l).apart)
  have hg : Unlinked ((offJobList j l s).modJob j f) j := hlink.unlink l
  cases ph with
  | pending =>
    rw [if_neg (by simp), if_pos (by simp), if_pos (by simp), PJLorMJL_eq hlink hl]
    exact ho.after (hg.pendOrMigEdits _ _)
  | running | ssusp | ususp =>
    rw [if_neg (by simp), if_neg (by simp), if_neg (by simp)]
    obtain rfl : l = .SJL := hl
    exact ho.after hg.startEdits
  | finished =>
    rw [if_pos (by simp)]
    exact .refl s

theorem updSwitchJob_queue (j : JobRef) (qfp qtp : QRef) (num : Int) (s : Mbd) (hq : (s.jobs j).qPtr = qtp) :
    ((updSwitchJob j qfp qtp num s).jobs j).qPtr = (s.jobs j).qPtr := by
  have hpost : ∀ (q : QRef) (p : Posting) (s : Mbd), ((postInQueue j q p s).jobs j).qPtr = q := fun q p s => by
    unfold postInQueue
    dsimp only
    split_ifs
    · rw [modJob_job]
      rfl
    · rw [post_jobs, modJob_job]
      rfl
  unfold updSwitchJob
  dsimp only
  rw [hq]
  split_ifs
  · rw [takeReserve_queue]
    split
    · rw [modJob_job]
      rfl
    · exact hpost qtp _ _
  · split
    · exact hq
    · exact hpost qtp _ _

theorem jobInQueueEnd_queue (q : QRef) (hf : (s.jobs j).jStatus.mask.isFinish = false) :
    ((jobInQueueEnd C j q s).jobs j).qPtr = q := by
  have hpend : ∀ (l : ListNo) (t : Int) (s : Mbd), ((inPendJobList C j l t s).jobs j).qPtr = (s.jobs j).qPtr := by
    intro l t s
    rw [inPendJobList_jobs, modJob_job]
  unfold jobInQueueEnd inPendOrMigList
  dsimp only
  rw [if_neg (by simp [hf])]
  split_ifs <;> simp [hpend]

theorem InPlace.switchEdits (h : InPlace s j) (q : QRef) (verdict : SwitchVerdict) :
    Edits 0 s (OpenLava.switchAJob C j q verdict s) := by
  have hd : ∀ (n : Nat) (jp : JData), (jp.useDefaultProcessors n).jStatus = jp.jStatus ∧
      (jp.useDefaultProcessors n).jgrpNode = jp.jgrpNode ∧ (jp.useDefaultProcessors n).qPtr = jp.qPtr := fun n jp => by
    unfold JData.useDefaultProcessors
    split_ifs <;> exact ⟨rfl, rfl, rfl⟩
  have hl : Touches false false j s (s.modJob j (·.useDefaultProcessors (s.queues q).defaultProcessors)) :=
    (Touches.refl _ _ j s).modJob _ fun _ => ⟨by rw [(hd _ _).1], (hd _ _).2.1⟩
  unfold OpenLava.switchAJob
  split
  · exact .refl s
  · rename_i he
    set s1 := s.modJob j (·.useDefaultProcessors (s.queues q).defaultProcessors) with hs1
    have hq1 : (s1.jobs j).qPtr = (s.jobs j).qPtr := by
      rw [hs1, modJob_job]
      exact (hd _ _).2.2
    split
    · exact hl.edits (.inr hq1)
    · set s2 := if (s1.jobs j).jStatus.mask.isPend ∧ (s1.jobs j).jStatus.reserve then _ else s1 with hs2
      have ht2 : Touches false false j s s2 :=
        (hl.freeReserveSlots.modJob (fun jp => { jp with reserveTime := 0 }) fun _ => ⟨rfl, rfl⟩).ite hl
      have hq2 : (s2.jobs j).qPtr = (s.jobs j).qPtr := by
        rw [hs2]
        split
        · rw [modJob_job]
          exact (freeReserveSlots_queue j s1).trans hq1
        · exact hq1
      have hf2 : (s2.jobs j).jStatus.mask.isFinish = false := by
        rw [ht2.mask rfl]
        simpa using (not_or.mp he).1
      have he := (ht2.edits (.inr hq2)).then ((h.stay ht2).queueEndEdits (C := C) q)
      have hu := ((Touches.refl false false j (OpenLava.jobInQueueEnd C j q s2)).updSwitchJob (s1.jobs j).qPtr q
        ((OpenLava.jobInQueueEnd C j q s2).jobs j).maxNumProcessors).edits
        (.inr (updSwitchJob_queue j _ q _ _ (jobInQueueEnd_queue q hf2)))
      exact (he.then hu).modJob _ (.inr rfl)

theorem putOntoTree_queue (nodeType : NodeType) : ((putOntoTree j nodeType s).jobs j).qPtr = (s.jobs j).qPtr := by
  unfold putOntoTree
  cases nodeType <;> simp [updJgrpCountByJStatus, updJgrpCountByOp]

theorem Edits.putOntoTree (h : Edits n s s') (nodeType : NodeType) : Edits n s (putOntoTree j nodeType s') :=
  h.then (((Touches.refl false true j s').putOntoTree nodeType).edits (.inr (putOntoTree_queue nodeType)))

theorem Unlinked.setEdits (h : Unlinked s j) (jp : JData) (live : Finset JobRef) :
    Edits 0 s { s.setJob j jp with live := live } :=
  ((Edits.refl s).modJob (fun _ => jp) (.inl h.apart)).then (.of_eq rfl rfl rfl (fun _ => rfl) fun _ => rfl)

theorem LinkedIn.priorityEdits (h : LinkedIn s j .PJL) : Edits 0 s (OpenLava.setPriority C j s) := by
  have h1 : LinkedIn (s.modJob j (·.replayPriority C)) j .PJL := h
  have hr : Edits 0 s (s.modJob j (·.replayPriority C)) := (Edits.refl s).modJob _ (.inr rfl)
  exact (hr.then (.off h1)).then ((h1.unlink .PJL).pendEdits (by decide) 0)

theorem Linked.newEdits (h : Linked s) (hj : j ∉ s.live) (now : Int) (fromLog : Bool)
    (hm : jp.jStatus = { mask := .PEND }) : Edits 0 s (OpenLava.handleNewJob C now fromLog j jp s) := by
  have hpen3 := h.newPends (C := C) hj hm
  set s0 : Mbd := { s.setJob j jp with live := insert j s.live }
  have hg : Unlinked s0 j := h.unlinked j hj
  set s2 := OpenLava.putOntoTree j .JOB (inPendJobList C j .PJL 0 s0)
  set s3 := OpenLava.countPending (s2.jobs j) s2
  have hpen4 := hpen3.prioritized (C := C) (fromLog = true ∧ 0 < C.maxUserPriority)
  set s4 := if fromLog = true ∧ 0 < C.maxUserPriority then OpenLava.setPriority C j s3 else s3
  have he3 : Edits 0 s s3 :=
    (((h.unlinked j hj).setEdits jp _).then (hg.pendEdits (by decide) 0)).putOntoTree .JOB |>.countPending _
  have he4 : Edits 0 s s4 := (he3.then hpen3.2.priorityEdits).ite he3
  refine Edits.ite ?_ he4
  have hpla := hpen4.inPlace.stay
    ((Touches.refl _ _ j s4).modJob (fun jp => { jp with newReason := PEND_USER_STOP }) fun _ => ⟨rfl, rfl⟩)
  have hmask : ((s4.modJob j fun jp => { jp with newReason := PEND_USER_STOP }).jobs j).jStatus.mask = .PEND := by
    rw [modJob_job]
    rw [hpen4.1]
  have hh := hpla.statusEdits (C := C) now (m := .PSUSP) (-1) (by rw [hmask]; decide)
  rw [hmask, if_neg (by decide)] at hh
  exact (he4.modJob _ (.inr rfl)).then hh

theorem Linked.elementEdits (h : Linked s) (jarray : JData) (he : e.1 ∉ s.live) :
    Edits 0 s (OpenLava.newElement C jarray s e) := by
  have hg : Unlinked { s.setJob e.1 { jarray with jobId := e.2 } with live := insert e.1 s.live } e.1 :=
    h.unlinked e.1 he
  have hpend := ((h.unlinked e.1 he).setEdits { jarray with jobId := e.2 } _).then
    (hg.pendEdits (C := C) (l := .PJL) (by decide) 0)
  exact (hpend.modJob _ (.inr rfl)).ite hpend

theorem Linked.elementsEdits (h : Linked s) (hm : jarray.jStatus = { mask := .PEND })
    (elems : List (JobRef × Int)) (hf : ∀ e ∈ elems, e.1 ∉ s.live) (hn : (elems.map Prod.fst).Nodup) :
    Edits 0 s (elems.foldl (OpenLava.newElement C jarray) s) := by
  induction elems generalizing s with
  | nil => exact .refl s
  | cons e elems ih =>
    rw [map_cons, nodup_cons] at hn
    have he := hf e (by simp)
    exact (h.elementEdits jarray he).then (ih (h.newElement hm he) (newElement_fresh hf hn.1) hn.2)

theorem Edits.modEach (h : Edits n s s') (hf : ∀ jp, (f jp).qPtr = jp.qPtr) (jobs : List JobRef) :
    Edits n s (jobs.foldl (fun s j => s.modJob j f) s') := by
  induction jobs generalizing s' with
  | nil => exact h
  | cons j jobs ih => exact ih (h.modJob f (.inr (hf _)))

theorem Linked.arrayEdits (h : Linked s) (ha : a ∉ s.live)
    (hm : jp.jStatus = { mask := .PEND }) (elems : List (JobRef × Int)) (hf : ∀ e ∈ elems, e.1 ∉ s.live)
    (hn : (elems.map Prod.fst).Nodup) : Edits 0 s (OpenLava.handleNewJobArray C a jp elems s) := by
  have ht := arrayTouches a jp s
  have hs : ((OpenLava.putOntoTree a .ARRAY (s.setJob a jp)).jobs a).jStatus = { mask := .PEND } := by
    rw [putOntoTree_status]
    simpa using hm
  have hr : Edits 0 s (OpenLava.putOntoTree a .ARRAY (s.setJob a jp)) :=
    ((h.unlinked a ha).setEdits jp s.live).putOntoTree .ARRAY
  have he := hr.then ((h.touchDead ht ha).elementsEdits (C := C) hs elems (by rwa [ht.live]) hn)
  set s1 := elems.foldl _ _
  suffices hc : Edits 0 s (if s1.replay then _ else post _ _ s1) from
    hc.then (.of_eq rfl rfl rfl (fun _ => rfl) fun _ => rfl)
  refine Edits.ite (Edits.ite (Edits.modEach (f := JData.replayPriority C) he (fun _ => rfl) _) he) ?_
  exact he.then (((Touches.refl false true a s1).post _ _).edits (.inr (by rw [post_jobs])))

theorem LinkedIn.removeEdits (h : LinkedIn s j .FJL) : Edits 0 s (OpenLava.removeJob j s) := by
  have hl : Edits 0 s { s with live := s.live.erase j } := .of_eq rfl rfl rfl (fun _ => rfl) fun _ => rfl
  have hg := hl.then (.off (s := { s with live := s.live.erase j }) (l := .FJL) h)
  unfold OpenLava.removeJob
  dsimp only
  split
  · split <;> exact hg.then (.of_eq rfl rfl rfl (fun _ => rfl) fun _ => rfl)
  · exact hg.updJgrp _ _ _
  · exact hg.updJgrp _ _ _

theorem Relisted.jobKey (h : Relisted s s') (i : JobRef) : OpenLava.jobKey s' i = OpenLava.jobKey s i := by
  obtain ⟨_, _, rfl⟩ := h
  rfl

/-- Jobs of one priority may take each other's places. -/
theorem Linked.shiftEdits (h : Linked s) (hl : l ≠ .FJL) {pre post b : List JobRef} (hs : Shifts l pre post s b s')
    (hb : ∀ i ∈ b, jobKey s i = v) (hpre : ∀ i ∈ pre, jobKey s i ≤ v) (hpost : ∀ i ∈ post, v ≤ jobKey s i) :
    Edits 0 s s' := by
  induction hs with
  | refl => exact .refl s
  | @move b s' j k hs hj hk ih =>
    have hmem : ∀ i, i ∈ (b.erase j).insertIdx k j ↔ i ∈ b := fun i => (perm_insertIdx_erase hj hk).mem_iff
    have ih := ih fun i hi => hb i ((hmem i).mpr hi)
    obtain ⟨he, hperm⟩ := hs.entries (h.nodup l)
    have hlink : LinkedIn s' j l := (h.shift hs).linkedIn (by rw [he]; simp [hj])
    have ho := offJobList_block he ((h.shift hs).nodup l) hj
    have hkey : ∀ i, jobKey (offJobList j l s') i = jobKey s i :=
      fun i => (hs.relisted.trans (offJobList_relisted j l s')).jobKey i
    refine (ih.then (.off hlink)).then (.insert (hlink.unlink l) hl ?_ fun _ => ⟨fun i hi => ?_, fun i hi => ?_⟩)
    · rw [ho, length_append, length_append]
      omega
    · rw [hkey, hkey, hb j ((hmem j).mpr hj)]
      rw [ho, append_assoc, take_length_add_append, take_append_of_le_length hk] at hi
      rcases mem_append.mp hi with hi | hi
      · exact hpre i hi
      · exact (hb i ((hmem i).mpr (mem_of_mem_erase (mem_of_mem_take hi)))).le
    · rw [hkey, hkey, hb j ((hmem j).mpr hj)]
      rw [ho, append_assoc, drop_length_add_append, drop_append_of_le_length hk] at hi
      rcases mem_append.mp hi with hi | hi
      · exact (hb i ((hmem i).mpr (mem_of_mem_erase (mem_of_mem_drop hi)))).ge
      · exact hpost i hi

theorem PJLorMJL_ne (j : JobRef) (s : Mbd) : PJLorMJL j s ≠ .FJL := by
  unfold PJLorMJL
  split_ifs <;> decide

/-- Between two entries of one priority all entries have it. -/
theorem Ascending.block {pre b post : List JobRef} {v : Int} (h : Ascending key (pre ++ b ++ post))
    (hb : ∀ i, i ∈ b.head? ∨ i ∈ b.getLast? → key i = v) (hne : b ≠ []) :
    (∀ i ∈ b, key i = v) ∧ (∀ i ∈ pre, key i ≤ v) ∧ ∀ i ∈ post, v ≤ key i := by
  obtain ⟨hpb, -, hc⟩ := pairwise_append.mp h
  obtain ⟨-, ha, hpre⟩ := pairwise_append.mp hpb
  obtain ⟨first, rest, rfl⟩ := exists_cons_of_ne_nil hne
  have hf : key first = v := hb first (.inl rfl)
  have hlast : key ((first :: rest).getLast hne) = v := hb _ (.inr (List.getLast?_eq_some_getLast hne))
  refine ⟨fun i hi => le_antisymm ?_ ?_, fun i hi => hf ▸ hpre i hi first (by simp), fun i hi => ?_⟩
  · rw [← hlast]
    rcases eq_or_ne i ((first :: rest).getLast hne) with heq | hlt
    · exact heq ▸ le_rfl
    · rw [← dropLast_concat_getLast hne] at ha hi
      refine (pairwise_append.mp ha).2.2 i ?_ _ (by simp)
      rcases mem_append.mp hi with hi | hi
      · exact hi
      · exact absurd (mem_singleton.mp hi) hlt
  · rw [← hf]
    rcases mem_cons.mp hi with rfl | hi
    · exact le_rfl
    · exact (pairwise_cons.mp ha).1 i hi
  · exact hlast ▸ hc _ (mem_append_right _ (getLast_mem hne)) i hi

theorem Linked.moveEdits (h : Linked s) (ha : ∀ l, l ≠ .FJL → Ascending (jobKey s) (s.lists l).entries) (j : JobRef)
    (moveReq : JobMoveReq) : Edits 0 s (OpenLava.moveAJob C j moveReq s) := by
  obtain ⟨pre, b0, b, post, he, hperm, hs, hends⟩ := moveAJob_shifts C moveReq (h.nodup (PJLorMJL j s))
  have hl := PJLorMJL_ne j s
  have ha := ha _ hl
  rw [he] at ha
  rcases eq_or_ne b0 [] with rfl | hne
  · generalize OpenLava.moveAJob C j moveReq s = s' at hs
    cases hs with
    | refl => exact .refl s
    | move _ hj hk => exact absurd (((perm_insertIdx_erase hj hk).symm.trans hperm).mem_iff.mp hj) (by simp)
  · obtain ⟨hb, hpre, hpost⟩ := Ascending.block (v := jobKey s j) ha (fun i hi => by rw [jobKey, jobKey, hends i hi]) hne
    exact h.shiftEdits hl hs (fun i hi => hb i (hperm.mem_iff.mp hi)) hpre hpost

/-- Whether a record of the log takes the job into `FJL`. -/
def ReplayFinishes (env : ReplayEnv) (newStat : JobStatusLog) (jp : JData) : Prop :=
  ¬ newStat.jStatus.isPostFinish ∧ ¬ newStat.jStatus.unkwn ∧ ¬ (jp.jStatus.mask.isPend ∧ newStat.jStatus.isStart) ∧
    ((jp.withUnkwn false).readRecord env newStat).2 ∧ Finishes jp.jStatus.mask newStat.jStatus
  deriving Decidable

theorem readRecord_queue (env : ReplayEnv) (newStat : JobStatusLog) (jp : JData) :
    (jp.readRecord env newStat).1.qPtr = jp.qPtr := by
  have hr : ∀ jp : JData, (jp.recordReason newStat).qPtr = jp.qPtr := fun jp => by
    unfold JData.recordReason
    split_ifs <;> rfl
  have he : ∀ jp : JData, (jp.recordExit env newStat).1.qPtr = jp.qPtr := fun jp => by
    unfold JData.recordExit
    split_ifs <;> rfl
  have hend : ∀ jp : JData, (jp.recordEnd env newStat).qPtr = jp.qPtr := fun jp => by
    unfold JData.recordEnd
    split_ifs <;> rfl
  unfold JData.readRecord
  dsimp only
  split_ifs <;> simp only [hr, he, hend]

theorem InPlace.recordEdits (h : InPlace s j) (env : ReplayEnv) (eventTime : Int)
    (hok : newStat.jStatus.isPostFinish ∨ newStat.jStatus.unkwn ∨
      ((s.jobs j).jStatus.mask.isPend ∧ newStat.jStatus.isStart) ∨ Unlinks (s.jobs j).jStatus.mask newStat.jStatus) :
    Edits (if ReplayFinishes env newStat (s.jobs j) then 1 else 0) s
      (OpenLava.replayNewstat C env eventTime j newStat s) := by
  have hu : InPlace (s.modJob j (·.withUnkwn false)) j := h.setMask (fun ph hph => (phase_unkwn _ false).trans hph) rfl
  have hkno : Edits 0 s (s.modJob j (·.withUnkwn false)) := (Edits.refl s).modJob _ (.inr rfl)
  unfold OpenLava.replayNewstat
  by_cases hpost : newStat.jStatus.isPostFinish
  · rw [if_pos hpost, if_neg fun hf => hf.1 hpost]
    exact (Edits.refl s).modJob _ (.inr rfl)
  rw [if_neg hpost]
  by_cases hun : newStat.jStatus.unkwn
  · rw [if_pos hun, if_neg fun hf => hf.2.1 hun]
    exact (Edits.refl s).modJob _ (.inr rfl)
  rw [if_neg hun]
  dsimp only
  rw [modJob_job]
  by_cases hs : (s.jobs j).jStatus.mask.isPend ∧ newStat.jStatus.isStart
  · rw [if_pos (show ((s.jobs j).withUnkwn false).jStatus.mask.isPend ∧ _ from hs), if_neg fun hf => hf.2.2.1 hs]
    exact hkno
  rw [if_neg (show ¬ (((s.jobs j).withUnkwn false).jStatus.mask.isPend ∧ _) from hs)]
  have hkee := readRecord_keeps env newStat ((s.jobs j).withUnkwn false)
  have hr := hkno.modJob (j := j) (fun _ => (((s.jobs j).withUnkwn false).readRecord env newStat).1)
    (.inr (by rw [modJob_job]; exact readRecord_queue env newStat _))
  by_cases hc : (((s.jobs j).withUnkwn false).readRecord env newStat).2
  · rw [if_pos hc]
    have hpla := hu.stay ((Touches.refl _ _ j _).readRecord env newStat)
    rw [modJob_job] at hpla
    have hok := ((hok.resolve_left hpost).resolve_left hun).resolve_left hs
    have hsta := hpla.statusEdits (C := C) eventTime (m := newStat.jStatus) eventTime
      (by rw [setJob_job, hkee.2.1]; exact hok)
    rw [setJob_job, hkee.2.1] at hsta
    have hn : Finishes ((s.jobs j).withUnkwn false).jStatus.mask newStat.jStatus ↔
        ReplayFinishes env newStat (s.jobs j) := ⟨fun hf => ⟨hpost, hun, hs, hc, hf⟩, fun hf => hf.2.2.2.2⟩
    simp only [hn] at hsta
    exact hr.after hsta
  · rw [if_neg hc, if_neg fun hf => hc hf.2.2.2.1]
    exact hr

end OpenLava

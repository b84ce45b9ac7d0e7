import OpenLava.Mbd.Touches

/-!
# Every job in its list

A live job is linked once, in the list of its phase; a job that is not live nowhere.
-/

namespace OpenLava

open List Mask Run

def linkCount (s : Mbd) (j : JobRef) (l : ListNo) : Nat := (s.lists l).entries.count j

def Unlinked (s : Mbd) (j : JobRef) : Prop := ∀ l, linkCount s j l = 0

def LinkedIn (s : Mbd) (j : JobRef) (l : ListNo) : Prop := ∀ l', linkCount s j l' = if l' = l then 1 else 0

/-- The list of a phase; a pending job may be in either of two. -/
def Belongs : Phase → ListNo → Prop
  | .pending, l => l = .PJL ∨ l = .MJL
  | .running, l | .ssusp, l | .ususp, l => l = .SJL
  | .finished, l => l = .FJL

def InPlace (s : Mbd) (j : JobRef) : Prop := ∃ ph l, (s.jobs j).phase = some ph ∧ Belongs ph l ∧ LinkedIn s j l

structure Linked (s : Mbd) : Prop where
  inPlace : ∀ j ∈ s.live, InPlace s j
  unlinked : ∀ j, j ∉ s.live → Unlinked s j

variable {s s' : Mbd} {j : JobRef}

theorem LinkedIn.unlink (h : LinkedIn s j l) (l' : ListNo) : Unlinked (offJobList j l' s) j := by
  intro l''
  have hl := h l''
  simp only [linkCount, offJobList, listRemoveEntry, count_erase_self] at hl ⊢
  split_ifs at hl <;> omega

theorem Unlinked.unlink (h : Unlinked s j) (l' : ListNo) : Unlinked (offJobList j l' s) j := by
  intro l''
  have hl := h l''
  simp only [linkCount, offJobList, listRemoveEntry, count_erase_self] at hl ⊢
  omega

theorem Unlinked.listInsertEntryBefore (h : Unlinked s j) (hs : succ ≤ (s.lists l).entries.length) :
    LinkedIn (listInsertEntryBefore l succ j s) j l := by
  intro l'
  have hl := h l'
  unfold linkCount at hl ⊢
  by_cases hll : l' = l
  · subst hll
    simp [OpenLava.listInsertEntryBefore, (perm_insertIdx j _ hs).count_eq, hl]
  · simp [OpenLava.listInsertEntryBefore, hll, hl]

theorem Unlinked.inFinishList (h : Unlinked s j) : LinkedIn (inFinishList j s) j .FJL := by
  intro l'
  have hl := h l'
  unfold linkCount at hl ⊢
  by_cases hll : l' = .FJL
  · subst hll
    simp [OpenLava.inFinishList, hl]
  · simp [OpenLava.inFinishList, hll, hl]

theorem pendIndex_le (scan : JobRef → ScanStep) (same : JobRef → Bool) (entries : List JobRef) :
    pendIndex scan same entries ≤ entries.length := by
  fun_induction pendIndex scan same entries <;> simp_all

theorem Unlinked.inPendJobList (h : Unlinked s j) (l : ListNo) (time : Int) : LinkedIn (inPendJobList C j l time s) j l :=
  Unlinked.listInsertEntryBefore h (pendIndex_le _ _ _)

theorem Unlinked.inStartJobList (h : Unlinked s j) : LinkedIn (inStartJobList j s) j .SJL :=
  h.listInsertEntryBefore findIdx_le_length

theorem Unlinked.inPendOrMigList (h : Unlinked s j) (migTime pendTime : Int) :
    ∃ l, Belongs .pending l ∧ LinkedIn (inPendOrMigList C j migTime pendTime s) j l := by
  unfold OpenLava.inPendOrMigList
  split_ifs
  · exact ⟨.PJL, .inl rfl, h.inPendJobList .PJL migTime⟩
  · exact ⟨.MJL, .inr rfl, h.inPendJobList .MJL 0⟩
  · exact ⟨.PJL, .inl rfl, h.inPendJobList .PJL pendTime⟩

theorem LinkedIn.stay (h : LinkedIn s j l) (ht : Touches false t j s s') : LinkedIn s' j l := fun l' => by
  rw [linkCount, ht.links rfl]
  exact h l'

theorem InPlace.stay (h : InPlace s j) (ht : Touches false false j s s') : InPlace s' j := by
  obtain ⟨ph, l, hph, hl, hlink⟩ := h
  exact ⟨ph, l, by rw [JData.phase, ht.mask rfl]; exact hph, hl, hlink.stay ht⟩

theorem Linked.touch (h : Linked s) (ht : Touches r t j s s') (hj : InPlace s' j) (hlive : j ∈ s.live) : Linked s' where
  inPlace i hi := by
    rw [ht.live] at hi
    by_cases hij : i = j
    · exact hij ▸ hj
    · obtain ⟨ph, l, hph, hl, hlink⟩ := h.inPlace i hi
      exact ⟨ph, l, by rw [ht.other i hij]; exact hph, hl, fun l' => (ht.otherLinks i hij l').trans (hlink l')⟩
  unlinked i hi := by
    rw [ht.live] at hi
    have hij : i ≠ j := fun hij => hi (hij ▸ hlive)
    exact fun l => (ht.otherLinks i hij l).trans (h.unlinked i hi l)

theorem Linked.stay (h : Linked s) (ht : Touches false false j s s') : Linked s' where
  inPlace i hi := by
    rw [ht.live] at hi
    by_cases hij : i = j
    · subst hij
      exact (h.inPlace i hi).stay ht
    · obtain ⟨ph, l, hph, hl, hlink⟩ := h.inPlace i hi
      exact ⟨ph, l, by rw [ht.other i hij]; exact hph, hl, fun l' => by rw [linkCount, ht.links rfl]; exact hlink l'⟩
  unlinked i hi l := by
    rw [linkCount, ht.links rfl]
    exact h.unlinked i (ht.live ▸ hi) l

/-- Changes after which a job is linked where it belongs. -/
def Relinks (old new : Mask) : Prop :=
  new.phase.isSome ∧ ¬ (old.isStart ∧ new.psusp) ∧ (old.isFinish → new.isFinish)
  deriving Decidable

theorem LinkedIn.moveToStart (h : LinkedIn s j l) : LinkedIn (moveToStart j s) j .SJL :=
  (LinkedIn.unlink (s := s.modJob j _) h _).inStartJobList

theorem LinkedIn.moveToFinish (h : LinkedIn s j l) (old : JStatus) : LinkedIn (moveToFinish C j old s) j .FJL :=
  (LinkedIn.unlink (s := (s.modJob j JData.exitReason).modJob j (·.markRequeue old)) h _).inFinishList

theorem LinkedIn.moveToPend (h : LinkedIn s j l) (now : Int) :
    ∃ l', Belongs .pending l' ∧ LinkedIn (moveToPend C now j s) j l' :=
  (Unlinked.inPendOrMigList (s := (listRemoveEntry .SJL j s).modJob j JData.unstart) (h.unlink .SJL) _ _)

theorem LinkedIn.moveJob (h : LinkedIn s j l) (hl : Belongs ph l) (hold : old.mask.phase = some ph) (hn : n.phase = some ph') (hok : Relinks old.mask n) (now : Int) :
    ∃ l', Belongs ph' l' ∧ LinkedIn (moveJob C now j old n s) j l' := by
  have hr := phase_reads hold
  have hr' := phase_reads hn
  obtain ⟨-, hpsu, hf⟩ := hok
  -- a job that none of the branches moves has a list for both phases
  have hstay : ¬ (n.isStart ∧ old.mask.isPend) → ¬ n.isFinish → ¬ (n.pend ∧ old.mask.isStart) → Belongs ph' l := by
    rw [hr.isStart, hr'.psusp] at hpsu
    rw [hr.isFinish, hr'.isFinish] at hf
    rw [hr.isStart, hr.isPend, hr'.isStart, hr'.isFinish]
    cases ph <;> cases ph' <;> simp_all [Belongs]
  unfold OpenLava.moveJob
  split_ifs with hs hf hpend hrun
  · rw [hr'.isStart] at hs
    have hph : ph' = .running ∨ ph' = .ssusp ∨ ph' = .ususp := by simpa using hs.1
    rcases hph with rfl | rfl | rfl <;> exact ⟨.SJL, rfl, h.moveToStart⟩
  · have hph : ph' = .finished := by simpa [hr'.isFinish] using hf
    subst hph
    exact ⟨.FJL, rfl, h.moveToFinish old⟩
  · have hph : ph' = .pending := by simpa [Mask.isPend, hpend.1] using hr'.isPend
    subst hph
    exact h.moveToPend now
  · exact ⟨l, hstay hs hf hpend, h⟩
  · exact ⟨l, hstay hs hf hpend, h⟩

theorem InPlace.countJob (h : InPlace s j) (logIt : Bool) (old n : Mask) : InPlace (countJob C logIt j old n s) j := by
  unfold OpenLava.countJob
  split
  · exact h.stay ((Touches.refl _ _ j s).updCounters _ _)
  · split
    · obtain ⟨_, _, -, -, hl⟩ := h
      refine ⟨.pending, .PJL, ?_, .inl rfl,
        Unlinked.inPendJobList (s := (offJobList j .SJL s).modJob j _) (hl.unlink .SJL) .PJL 0⟩
      simp only [JData.phase, inPendJobList_jobs, modJob_job]
      split_ifs <;> rfl
    · exact h

theorem InPlace.jStatusChange (h : InPlace s j) (now : Int) (eventTime : Int)
    (hok : n.known = (s.jobs j).jStatus.mask.known ∨ Relinks (s.jobs j).jStatus.mask n) :
    InPlace (jStatusChange C now j n eventTime s) j := by
  unfold OpenLava.jStatusChange
  dsimp only
  split
  · exact h
  · rename_i hs
    replace hok := hok.resolve_left hs
    obtain ⟨ph, l, hph, hl, hlink⟩ := h
    obtain ⟨ph', hph'⟩ := Option.isSome_iff_exists.mp hok.1
    set s1 := if eventTime = 0 then resetReserve j n s else s
    have hset : Touches false true j s (setStatus j n s1) :=
      Touches.setStatus ((((Touches.refl false true j s).resetReserve n).ite (.refl _ _ j s))) n
    obtain ⟨l', hl', hlink'⟩ := (hlink.stay hset).moveJob (C := C) hl hph hph' hok now
    have hmove := (Touches.refl true false j (setStatus j n s1)).moveJob C now (s.jobs j).jStatus n
    have hpla : InPlace (moveJob C now j (s.jobs j).jStatus n (setStatus j n s1)) j :=
      ⟨ph', l', by rw [JData.phase, hmove.mask rfl, setStatus_mask]; exact hph', hl', hlink'⟩
    have hc := hpla.countJob (C := C) (eventTime = 0) (s.jobs j).jStatus.mask n
    split
    · exact hc.stay ((Touches.refl _ _ j _).modJob _ fun _ => ⟨rfl, rfl⟩)
    · exact hc

theorem InPlace.suspendRequeued (h : InPlace s j) (hm : (s.jobs j).jStatus = { mask := .PEND }) :
    InPlace (suspendRequeued j s) j := by
  obtain ⟨ph, l, hph, hl, hlink⟩ := h
  have hpend : ph = .pending := by
    rw [JData.phase, hm] at hph
    exact (Option.some_inj.mp hph).symm
  subst hpend
  refine ⟨.pending, l, ?_, hl, hlink.stay ((Touches.refl _ true j s).suspendRequeued)⟩
  rcases suspendRequeued_status hm with h' | h' <;> simp only [JData.phase, h'] <;> rfl

/-- A requeued job is linked as pending, whatever list it is taken from. -/
theorem InPlace.handleRequeueJob (h : InPlace s j) (time : Int) : InPlace (handleRequeueJob C time j s) j := by
  obtain ⟨ph, l, -, -, hl⟩ := h
  unfold OpenLava.handleRequeueJob
  dsimp only
  set s1 := (updJgrpCountByJStatus _ _ _ _).modJob j _ with hs1
  have hpend : InPlace (inPendJobList C j .PJL time (offJobList j .FJL s1)) j := by
    refine ⟨.pending, .PJL, ?_, .inl rfl, Unlinked.inPendJobList (LinkedIn.unlink (s := s1) hl .FJL) .PJL time⟩
    rw [JData.phase, inPendJobList_jobs, hs1]
    simp
    rfl
  have hm : ((inPendJobList C j .PJL time (offJobList j .FJL s1)).jobs j).jStatus = { mask := .PEND } := by
    rw [inPendJobList_jobs, hs1]
    simp
  exact (hpend.suspendRequeued hm).stay
    (((Touches.refl _ _ j _).modJob freeExecParams fun _ => ⟨rfl, rfl⟩).countPending _)

theorem InPlace.arrayRequeue1 (h : InPlace s j) (now : Int) (req : RequeueReq) :
    InPlace (arrayRequeue1 C now req s j) j := by
  unfold OpenLava.arrayRequeue1
  dsimp only
  split
  · obtain ⟨ph, l, hph, hl, hlink⟩ := (h.handleRequeueJob (C := C) now).stay
      ((Touches.refl _ _ j _).modJob (fun jp => { jp with startTime := 0, endTime := 0 }) fun _ => ⟨rfl, rfl⟩)
    have hpend : ph = .pending := by
      rw [JData.phase, modJob_job] at hph
      rcases handleRequeueJob_status (C := C) (j := j) (s := s) now with hm | hm <;> rw [hm] at hph <;>
        exact (Option.some_inj.mp hph).symm
    subst hpend
    split
    · exact ⟨.pending, l, by rw [JData.phase, modJob_job, modJob_job]; rfl, hl, hlink⟩
    · exact ⟨.pending, l, by rw [JData.phase, modJob_job]; rfl, hl, hlink⟩
  · split
    · exact h.stay ((Touches.refl _ _ j s).modJob _ fun _ => ⟨rfl, rfl⟩)
    · exact h

theorem InPlace.jobInQueueEnd (h : InPlace s j) (q : QRef) : InPlace (jobInQueueEnd C j q s) j := by
  obtain ⟨ph, l, hph, hl, hlink⟩ := h
  have hr := phase_reads hph
  have hmask : ((OpenLava.jobInQueueEnd C j q s).jobs j).phase = some ph := by
    rw [JData.phase, ((Touches.refl true false j s).jobInQueueEnd C q).mask rfl]
    exact hph
  suffices hlin : ∃ l', Belongs ph l' ∧ LinkedIn (OpenLava.jobInQueueEnd C j q s) j l' by
    obtain ⟨l', hl', hlink'⟩ := hlin
    exact ⟨ph, l', hmask, hl', hlink'⟩
  unfold OpenLava.jobInQueueEnd
  dsimp only
  rw [hr.isFinish, hr.isPend]
  have ho : ∀ l' f, Unlinked ((offJobList j l' s).modJob j f) j := fun l' _ => hlink.unlink l'
  cases ph with
  | pending => exact Unlinked.inPendOrMigList (ho (PJLorMJL j s) _) _ _
  | running | ssusp | ususp => exact ⟨.SJL, rfl, Unlinked.inStartJobList (ho .SJL _)⟩
  | finished => exact ⟨l, hl, hlink⟩

theorem InPlace.switchAJob (h : InPlace s j) (q : QRef) (verdict : SwitchVerdict) :
    InPlace (switchAJob C j q verdict s) j := by
  have hl : Touches false false j s (s.modJob j (·.useDefaultProcessors (s.queues q).defaultProcessors)) :=
    (Touches.refl _ _ j s).modJob _ fun _ => by
      unfold JData.useDefaultProcessors
      split_ifs <;> exact ⟨rfl, rfl⟩
  unfold OpenLava.switchAJob
  split
  · exact h
  · split
    · exact h.stay hl
    · refine (InPlace.jobInQueueEnd (h.stay ?_) q).stay
        (((Touches.refl _ _ j _).updSwitchJob _ _ _).modJob _ fun _ => ⟨rfl, rfl⟩)
      exact (hl.freeReserveSlots.modJob _ fun _ => ⟨rfl, rfl⟩).ite hl

theorem Linked.enter (h : Linked s)
    (ht : Touches r t j { s.setJob j jp with live := insert j s.live } s') (hp : InPlace s' j) : Linked s' where
  inPlace i hi := by
    rw [ht.live, Finset.mem_insert] at hi
    by_cases hij : i = j
    · exact hij ▸ hp
    · obtain ⟨ph, l, hph, hl, hlink⟩ := h.inPlace i (hi.resolve_left hij)
      refine ⟨ph, l, ?_, hl, fun l' => (ht.otherLinks i hij l').trans (hlink l')⟩
      rw [ht.other i hij]
      exact (setJob_other s j jp i hij).symm ▸ hph
  unlinked i hi := by
    rw [ht.live, Finset.mem_insert, not_or] at hi
    exact fun l => (ht.otherLinks i hi.1 l).trans (h.unlinked i hi.2 l)

theorem putOntoTree_status (nodeType : NodeType) : ((putOntoTree j nodeType s).jobs j).jStatus = (s.jobs j).jStatus := by
  unfold putOntoTree
  cases nodeType <;> simp [updJgrpCountByJStatus, updJgrpCountByOp]

def Pends (s : Mbd) (j : JobRef) : Prop := (s.jobs j).jStatus = { mask := .PEND } ∧ LinkedIn s j .PJL

theorem Pends.inPlace (h : Pends s j) : InPlace s j := by
  refine ⟨.pending, .PJL, ?_, .inl rfl, h.2⟩
  rw [JData.phase, h.1]
  rfl

theorem Unlinked.begin (h : Unlinked s j) (hm : (s.jobs j).jStatus = { mask := .PEND }) (time : Int) :
    Pends (OpenLava.inPendJobList C j .PJL time s) j :=
  ⟨by rw [inPendJobList_jobs, modJob_job]; exact hm, h.inPendJobList .PJL time⟩

theorem Pends.setPriority (h : Pends s j) : Pends (setPriority C j s) j :=
  Unlinked.begin (s := offJobList j .PJL (s.modJob j _)) (LinkedIn.unlink (s := s.modJob j _) h.2 .PJL)
    (by simpa using h.1) 0

theorem Linked.newPends (h : Linked s) (hj : j ∉ s.live) (hm : jp.jStatus = { mask := .PEND }) :
    let s1 := inPendJobList C j .PJL 0 { s.setJob j jp with live := insert j s.live }
    let s2 := putOntoTree j .JOB s1
    Pends (countPending (s2.jobs j) s2) j := by
  intro s1 s2
  have hpen : Pends s1 j :=
    Unlinked.begin (s := { s.setJob j jp with live := insert j s.live }) (h.unlinked j hj) (by simpa using hm) 0
  refine ⟨?_, hpen.2.stay (((Touches.refl false true j s1).putOntoTree .JOB).countPending _)⟩
  rw [countPending_jobs, putOntoTree_status]
  exact hpen.1

theorem Pends.prioritized (h : Pends s j) (c : Prop) [Decidable c] : Pends (if c then OpenLava.setPriority C j s else s) j := by
  split_ifs
  · exact h.setPriority
  · exact h

theorem Linked.handleNewJob (h : Linked s) (hj : j ∉ s.live) (now : Int) (fromLog : Bool)
    (hm : jp.jStatus = { mask := .PEND }) : Linked (handleNewJob C now fromLog j jp s) := by
  have hpen3 := h.newPends (C := C) hj hm
  set s0 : Mbd := { s.setJob j jp with live := insert j s.live }
  set s2 := putOntoTree j .JOB (inPendJobList C j .PJL 0 s0)
  set s3 := countPending (s2.jobs j) s2
  have hpen4 := hpen3.prioritized (C := C) (fromLog = true ∧ 0 < C.maxUserPriority)
  set s4 := if fromLog = true ∧ 0 < C.maxUserPriority then setPriority C j s3 else s3
  have ht4 : Touches true true j s0 s4 := by
    have := (((Touches.refl true true j s0).inPendJobList C .PJL 0).putOntoTree .JOB).countPending (s2.jobs j)
    exact (this.setPriority C).ite this
  show Linked (if jp.jobBill.hold = true then
    OpenLava.jStatusChange C now j .PSUSP (-1) (s4.modJob j fun jp => { jp with newReason := PEND_USER_STOP }) else s4)
  split
  · refine h.enter ((ht4.modJob _ (by simp)).jStatusChange C now .PSUSP (-1)) ?_
    have hpla := hpen4.inPlace.stay
      ((Touches.refl _ _ j s4).modJob (fun jp => { jp with newReason := PEND_USER_STOP }) fun _ => ⟨rfl, rfl⟩)
    refine hpla.jStatusChange now (-1) (.inr ?_)
    rw [modJob_job]
    rw [hpen4.1]
    decide
  · exact h.enter ht4 hpen4.inPlace

theorem Linked.touchDead (h : Linked s) (ht : Touches false true j s s') (hj : j ∉ s.live) : Linked s' where
  inPlace i hi := by
    rw [ht.live] at hi
    have hij : i ≠ j := fun hij => hj (hij ▸ hi)
    obtain ⟨ph, l, hph, hl, hlink⟩ := h.inPlace i hi
    exact ⟨ph, l, by rw [ht.other i hij]; exact hph, hl, fun l' => (ht.otherLinks i hij l').trans (hlink l')⟩
  unlinked i hi l := by
    rw [linkCount, ht.links rfl]
    exact h.unlinked i (ht.live ▸ hi) l

theorem newElement_live (jarray : JData) (e : JobRef × Int) : (newElement C jarray s e).live = insert e.1 s.live := by
  unfold newElement
  split_ifs <;> rfl

theorem newElement_fresh (hf : ∀ e' ∈ e :: elems, e'.1 ∉ s.live) (hne : e.1 ∉ elems.map Prod.fst) :
    ∀ e' ∈ elems, e'.1 ∉ (newElement C jarray s e).live := by
  intro e' he'
  rw [newElement_live, Finset.mem_insert, not_or]
  exact ⟨fun heq => hne (heq ▸ mem_map_of_mem he'), hf e' (by simp [he'])⟩

theorem arrayTouches (a : JobRef) (jp : JData) (s : Mbd) : Touches false true a s (putOntoTree a .ARRAY (s.setJob a jp)) :=
  ((Touches.refl false true a s).modJob (fun _ => jp) (by simp)).putOntoTree .ARRAY

theorem Linked.newElement (h : Linked s) (hm : jarray.jStatus = { mask := .PEND })
    (he : e.1 ∉ s.live) : Linked (newElement C jarray s e) := by
  set s0 : Mbd := { s.setJob e.1 { jarray with jobId := e.2 } with live := insert e.1 s.live } with hs0
  have hpen : Pends (inPendJobList C e.1 .PJL 0 s0) e.1 :=
    Unlinked.begin (s := s0) (h.unlinked e.1 he) (by rw [hs0]; simpa using hm) 0
  have ht := (Touches.refl true true e.1 s0).inPendJobList C .PJL 0
  unfold OpenLava.newElement
  split_ifs
  · refine h.enter (ht.modJob _ (by simp)) ⟨.pending, .PJL, ?_, .inl rfl, hpen.2⟩
    rw [JData.phase, modJob_job]
    rfl
  · exact h.enter ht hpen.inPlace

theorem Linked.newElements (h : Linked s) (hm : jarray.jStatus = { mask := .PEND })
    (elems : List (JobRef × Int)) (hf : ∀ e ∈ elems, e.1 ∉ s.live) (hn : (elems.map Prod.fst).Nodup) :
    Linked (elems.foldl (OpenLava.newElement C jarray) s) := by
  induction elems generalizing s with
  | nil => exact h
  | cons e elems ih =>
    rw [map_cons, nodup_cons] at hn
    exact ih (h.newElement hm (hf e (by simp))) (newElement_fresh hf hn.1) hn.2

theorem Linked.of_eq (h : Linked s) (hl : s'.live = s.live) (hj : s'.jobs = s.jobs) (hs : s'.lists = s.lists) :
    Linked s' where
  inPlace i hi := by
    obtain ⟨ph, l, hph, hin, hlink⟩ := h.inPlace i (hl ▸ hi)
    exact ⟨ph, l, hj ▸ hph, hin, fun l' => by rw [linkCount, hs]; exact hlink l'⟩
  unlinked i hi l := by
    rw [linkCount, hs]
    exact h.unlinked i (hl ▸ hi) l

theorem Linked.modEach (h : Linked s) (hf : ∀ jp, (f jp).jStatus.mask = jp.jStatus.mask ∧ (f jp).jgrpNode = jp.jgrpNode)
    (jobs : List JobRef) : Linked (jobs.foldl (fun s j => s.modJob j f) s) := by
  induction jobs generalizing s with
  | nil => exact h
  | cons j jobs ih => exact ih (h.stay ((Touches.refl _ _ j s).modJob f fun _ => hf _))

theorem Linked.handleNewJobArray (h : Linked s) (ha : a ∉ s.live)
    (hm : jp.jStatus = { mask := .PEND }) (elems : List (JobRef × Int)) (hf : ∀ e ∈ elems, e.1 ∉ s.live)
    (hn : (elems.map Prod.fst).Nodup) : Linked (handleNewJobArray C a jp elems s) := by
  have ht := arrayTouches a jp s
  have hs : ((putOntoTree a .ARRAY (s.setJob a jp)).jobs a).jStatus = { mask := .PEND } := by
    rw [putOntoTree_status]
    simpa using hm
  have he := (h.touchDead ht ha).newElements (C := C) hs elems (by rwa [ht.live]) hn
  set s1 := elems.foldl _ _
  -- the counters of the array node are no links
  suffices hc : Linked (if s1.replay then _ else post _ _ s1) from hc.of_eq rfl rfl rfl
  split
  · split
    · exact Linked.modEach (f := JData.replayPriority C) he (fun _ => ⟨rfl, rfl⟩) _
    · exact he
  · exact he.stay ((Touches.refl _ _ a s1).post _ _)

theorem Linked.arrayRequeue (h : Linked s) (now : Int) (req : RequeueReq) (node : Option NodeRef)
    (elems : List JobRef) (hl : ∀ j ∈ elems, j ∈ s.live) : Linked (arrayRequeue C now req node elems s) := by
  have hf : ∀ s, Linked s → (∀ j ∈ elems, j ∈ s.live) → Linked (elems.foldl (OpenLava.arrayRequeue1 C now req) s) := by
    clear hl h
    induction elems with
    | nil => exact fun s h _ => h
    | cons j elems ih =>
      intro s h hl
      have ht := (Touches.refl true true j s).arrayRequeue1 C now req
      refine ih _ (h.touch ht ((h.inPlace j (hl j (by simp))).arrayRequeue1 now req) (hl j (by simp))) fun i hi => ?_
      rw [ht.live]
      exact hl i (by simp [hi])
  unfold OpenLava.arrayRequeue
  dsimp only
  split
  · exact h
  · exact hf s h hl

theorem Linked.removeJob (h : Linked s) (j : JobRef) : Linked (removeJob j s) := by
  have hg : Linked (offJobList j .FJL { s with live := s.live.erase j }) := by
    refine ⟨fun i hi => ?_, fun i hi => ?_⟩
    · obtain ⟨hij, hi⟩ := Finset.mem_erase.mp hi
      obtain ⟨ph, l, hph, hl, hlink⟩ := h.inPlace i hi
      exact ⟨ph, l, hph, hl, fun l' => (count_erase_of_ne hij).trans (hlink l')⟩
    · by_cases hij : i = j
      · subst hij
        by_cases hl : i ∈ s.live
        · obtain ⟨_, _, -, -, hlink⟩ := h.inPlace i hl
          exact LinkedIn.unlink (s := { s with live := s.live.erase i }) hlink .FJL
        · exact Unlinked.unlink (s := { s with live := s.live.erase i }) (h.unlinked i hl) .FJL
      · have hl : i ∉ s.live := fun hl => hi (Finset.mem_erase.mpr ⟨hij, hl⟩)
        exact fun l => (count_erase_of_ne hij).trans (h.unlinked i hl l)
  unfold OpenLava.removeJob
  dsimp only
  split
  · split <;> exact hg.of_eq rfl rfl rfl
  · exact hg.of_eq rfl rfl rfl
  · exact hg.of_eq rfl rfl rfl

theorem LinkedIn.mem_iff (h : LinkedIn s j l) (l' : ListNo) : j ∈ (s.lists l').entries ↔ l' = l := by
  rw [← count_pos_iff, show (s.lists l').entries.count j = if l' = l then 1 else 0 from h l']
  split_ifs with heq <;> simp [heq]

theorem Linked.linkedIn (h : Linked s) (hj : j ∈ (s.lists l).entries) : LinkedIn s j l := by
  have hlive : j ∈ s.live := by
    by_contra hd
    have := h.unlinked j hd l
    exact absurd hj (count_eq_zero.mp this)
  obtain ⟨_, l', -, -, hl⟩ := h.inPlace j hlive
  rwa [(hl.mem_iff l).mp hj]

theorem Linked.nodup (h : Linked s) (l : ListNo) : (s.lists l).entries.Nodup := by
  rw [nodup_iff_count_le_one]
  intro j
  by_cases hj : j ∈ (s.lists l).entries
  · have := h.linkedIn hj l
    rw [linkCount, if_pos rfl] at this
    exact this.le
  · rw [count_eq_zero_of_not_mem hj]
    exact Nat.zero_le 1

theorem Linked.rearrange (h : Linked s) (hr : Relisted s s') (hc : ∀ i l, linkCount s' i l = linkCount s i l) :
    Linked s' := by
  obtain ⟨lists, ends, rfl⟩ := hr
  refine ⟨fun j hj => ?_, fun j hj l => (hc j l).trans (h.unlinked j hj l)⟩
  obtain ⟨ph, l, hph, hl, hlink⟩ := h.inPlace j hj
  exact ⟨ph, l, hph, hl, fun l' => (hc j l').trans (hlink l')⟩

theorem Linked.shift (h : Linked s) {pre post b : List JobRef} (hs : Shifts l pre post s b s') : Linked s' := by
  refine h.rearrange hs.relisted fun i l' => ?_
  unfold linkCount
  by_cases hl : l' = l
  · subst hl
    exact (hs.entries (h.nodup _)).2.count_eq i
  · rw [hs.other (h.nodup _) hl fun i hi hin => hl ((h.linkedIn hin).mem_iff _ |>.mp hi).symm]

theorem Linked.moveAJob (h : Linked s) (j : JobRef) (moveReq : JobMoveReq) : Linked (moveAJob C j moveReq s) := by
  obtain ⟨pre, b0, b, post, -, -, hs, -⟩ := moveAJob_shifts C moveReq (h.nodup (PJLorMJL j s))
  exact h.shift hs

theorem InPlace.setMask (h : InPlace s j) (hn : ∀ ph, (s.jobs j).phase = some ph → n.phase = some ph) (hf : (f (s.jobs j)).jStatus.mask = n) : InPlace (s.modJob j f) j := by
  obtain ⟨ph, l, hph, hl, hlink⟩ := h
  exact ⟨ph, l, by rw [JData.phase, modJob_job, hf]; exact hn ph hph, hl, hlink⟩

theorem Linked.setMask (h : Linked s) (hn : ∀ ph, (s.jobs j).phase = some ph → n.phase = some ph) (hf : (f (s.jobs j)).jStatus.mask = n) : Linked (s.modJob j f) := by
  have ht : Touches false true j s (s.modJob j f) := (Touches.refl _ _ j s).modJob f (by simp)
  by_cases hj : j ∈ s.live
  · exact h.touch ht ((h.inPlace j hj).setMask hn hf) hj
  · exact h.touchDead ht hj

theorem Linked.postFinish (h : Linked s) (j : JobRef) (pdone perr : Bool) :
    Linked (s.modJob j (·.postFinish pdone perr)) := by
  refine h.setMask (fun ph hph => ?_) rfl
  unfold JData.postFinish
  dsimp only
  split_ifs with hd
  · have hf : ph = .finished := by simpa [Mask.isFinish, hd] using (phase_reads hph).isFinish
    subst hf
    exact phase_post hph _ _
  · exact hph

/-- Post-execution ends of finished jobs, and changes that relink or are not made. -/
def ReplayLinks (old new : Mask) : Prop :=
  if new.isPostFinish then old.isFinish ∧ new.phase = some .finished
  else new.unkwn ∨ (old.isPend ∧ new.isStart) ∨ new.known = old.known ∨ Relinks old new
  deriving Decidable

theorem InPlace.replayNewstat (h : InPlace s j) (env : ReplayEnv) (eventTime : Int)
    (hok : ReplayLinks (s.jobs j).jStatus.mask newStat.jStatus) :
    InPlace (replayNewstat C env eventTime j newStat s) j := by
  have hu : ∀ b, InPlace (s.modJob j (·.withUnkwn b)) j :=
    fun b => h.setMask (fun ph hph => (phase_unkwn _ b).trans hph) rfl
  unfold ReplayLinks at hok
  unfold OpenLava.replayNewstat
  split
  · rename_i hpost
    rw [if_pos hpost] at hok
    refine h.setMask (fun ph hph => ?_) rfl
    have hf : ph = .finished := by simpa [hok.1] using (phase_reads hph).isFinish
    rw [hf]
    exact hok.2
  · rename_i hpost
    rw [if_neg hpost] at hok
    split
    · exact hu true
    · rename_i hkno
      dsimp only
      split
      · exact hu false
      · rename_i hs
        have hr := (hu false).stay ((Touches.refl _ _ j _).readRecord env newStat)
        split
        · refine hr.jStatusChange eventTime eventTime ?_
          rw [setJob_job, (readRecord_keeps env newStat _).2.1, modJob_job]
          rw [modJob_job] at hs
          exact (hok.resolve_left hkno).resolve_left hs
        · exact hr

/-- The operations that leave every job in place. -/
def Linkable (op : Op) (s : Mbd) : Prop :=
  match op with
  | .newJob _ _ j _ _ _ => j ∉ s.live
  | .newJobArray a _ _ _ elems => a ∉ s.live ∧ (∀ e ∈ elems, e.1 ∉ s.live) ∧ (elems.map Prod.fst).Nodup
  | .jStatusChange _ j newStatus _ => j ∈ s.live ∧
      (newStatus.known = (s.jobs j).jStatus.mask.known ∨ Relinks (s.jobs j).jStatus.mask newStatus)
  | .switchAJob j _ _ | .handleRequeueJob _ j => j ∈ s.live
  | .arrayRequeue _ _ _ elems => ∀ j ∈ elems, j ∈ s.live
  | .replayNewstat _ _ j newStat => j ∈ s.live ∧ ReplayLinks (s.jobs j).jStatus.mask newStat.jStatus
  | .allocHosts .. | .deallocHosts _ | .reserveSlots .. | .freeReserveSlots _ | .takeReserve _ | .dropReserve _
  | .removeJob _ | .modify .. | .note .. | .setUnkwn .. | .postFinish .. | .moveAJob .. | .endReplay => True

instance : (op : Op) → (s : Mbd) → Decidable (Linkable op s)
  | .newJob .. , s => inferInstanceAs (Decidable (_ ∉ s.live))
  | .newJobArray .. , _ | .jStatusChange .. , _ | .replayNewstat .. , _ => inferInstanceAs (Decidable (_ ∧ _))
  | .switchAJob .. , s | .handleRequeueJob .. , s => inferInstanceAs (Decidable (_ ∈ s.live))
  | .arrayRequeue _ _ _ elems, s => inferInstanceAs (Decidable (∀ j ∈ elems, j ∈ s.live))
  | .allocHosts .. , _ | .deallocHosts _, _ | .reserveSlots .. , _ | .freeReserveSlots _, _ | .takeReserve _, _
  | .dropReserve _, _ | .removeJob _, _ | .modify .. , _ | .note .. , _ | .setUnkwn .. , _ | .postFinish .. , _
  | .moveAJob .. , _ | .endReplay, _ => inferInstanceAs (Decidable True)

theorem Linked.step (op : Op) (s : Mbd) (h : Linked s) (hop : Linkable op s) : Linked (step C op s) := by
  cases op with
  | newJob now fromLog j jobId user bill => exact h.handleNewJob hop now fromLog rfl
  | newJobArray a jobId user bill elems => exact h.handleNewJobArray hop.1 rfl elems hop.2.1 hop.2.2
  | jStatusChange now j n eventTime =>
    exact h.touch ((Touches.refl _ _ j s).jStatusChange C now n eventTime)
      ((h.inPlace j hop.1).jStatusChange now eventTime hop.2) hop.1
  | allocHosts j n cands => exact h.stay ((Touches.refl _ _ j s).allocHosts n cands)
  | deallocHosts j => exact h.stay (Touches.refl _ _ j s).deallocHosts
  | reserveSlots now j => exact h.stay ((Touches.refl _ _ j s).reserveSlots C now)
  | freeReserveSlots j => exact h.stay (Touches.refl _ _ j s).freeReserveSlots
  | takeReserve j => exact h.stay (Touches.refl _ _ j s).takeReserve
  | dropReserve j => exact h.stay (Touches.refl _ _ j s).dropReserve
  | switchAJob j q verdict =>
    exact h.touch ((Touches.refl _ false j s).switchAJob C q verdict) ((h.inPlace j hop).switchAJob q verdict) hop
  | moveAJob j moveReq => exact h.moveAJob j moveReq
  | handleRequeueJob time j =>
    exact h.touch ((Touches.refl _ _ j s).handleRequeueJob C time) ((h.inPlace j hop).handleRequeueJob time) hop
  | arrayRequeue now req node elems => exact h.arrayRequeue now req node elems hop
  | removeJob j => exact h.removeJob j
  | modify j newSub =>
    exact h.stay ((Touches.refl _ _ j s).modJob (fun jp => { jp with newSub := some newSub }) fun _ => ⟨rfl, rfl⟩)
  | note j n => exact h.stay ((Touches.refl _ _ j s).modJob n.write fun _ => ⟨rfl, rfl⟩)
  | setUnkwn j b => exact Linked.setMask (f := (·.withUnkwn b)) h (fun ph hph => (phase_unkwn _ b).trans hph) rfl
  | postFinish j pdone perr => exact h.postFinish j pdone perr
  | replayNewstat env eventTime j newStat =>
    exact h.touch ((Touches.refl _ _ j s).replayNewstat C env eventTime newStat)
      ((h.inPlace j hop.1).replayNewstat env eventTime hop.2) hop.1
  | endReplay =>
    obtain ⟨hj, hlive, hl, -⟩ := endReplay_frame s
    exact h.of_eq hlive hj hl

theorem Mbd.Initial.linked (h : s.Initial) : Linked s where
  inPlace j hj := by simp [h.live] at hj
  unlinked j _ l := by simp [linkCount, h.lists]

/-- Over every run a live job is linked exactly once, in the list of its status. -/
theorem job_lists_of_run (C : Config) (s₀ : Mbd) (h₀ : s₀.Initial) (ops : List Op)
    (hops : Meets (step C) Linkable ops s₀) (j : JobRef) (hj : j ∈ (run (step C) ops s₀).live) :
    let s := run (step C) ops s₀
    let m := (s.jobs j).jStatus.mask
    linkCount s j .PJL + linkCount s j .MJL + linkCount s j .SJL + linkCount s j .FJL = 1 ∧
      (j ∈ (s.lists .PJL).entries ∨ j ∈ (s.lists .MJL).entries ↔ m.pend ∨ m.psusp) ∧
      (j ∈ (s.lists .SJL).entries ↔ m.run ∨ m.ssusp ∨ m.ususp) ∧
      (j ∈ (s.lists .FJL).entries ↔ m.isFinish) := by
  intro s m
  have hlin : Linked s := run_invariant Linked.step ops s₀ h₀.linked hops
  obtain ⟨ph, l, hph, hl, hlink⟩ := hlin.inPlace j hj
  have hr : m.Reads ph := phase_reads hph
  have hpend : m.pend ∨ m.psusp ↔ ph = .pending := by
    rw [← Bool.or_eq_true]
    exact (Bool.eq_iff_iff.mp hr.isPend).trans decide_eq_true_iff
  rw [hpend, hr.run, hr.ssusp, hr.ususp, hr.isFinish]
  simp only [hlink.mem_iff, hlink .PJL, hlink .MJL, hlink .SJL, hlink .FJL]
  cases ph with
  | pending => rcases hl with rfl | rfl <;> decide
  | running | ssusp | ususp | finished =>
    cases hl
    decide

/-- A job is held, released, switched, runs, is suspended and finishes; an array pends. -/
theorem job_lists_of_run_switch :
    let ops : List Op := [.newJob 1 false 0 1 0 { queue := 0, hold := true }, .jStatusChange 2 0 .PEND 0,
      .newJobArray 7 2 0 { queue := 0 } [(1, 3), (2, 4)], .switchAJob 0 1 .accepted, .allocHosts 0 1 [(0, 1)],
      .jStatusChange 3 0 .RUN 0, .jStatusChange 4 0 .USUSP 0, .jStatusChange 5 0 .EXIT 0]
    Meets (step {}) Linkable ops .blank ∧ 0 ∈ ((run (step {}) ops .blank).lists .FJL).entries := by
  refine ⟨by decide, ?_⟩
  exact (job_lists_of_run {} .blank Mbd.blank_initial _ (by decide) 0 (by decide)).2.2.2.mpr (by decide)

/-- A job that is sent from RUN to PSUSP stays in `SJL`. -/
theorem job_lists_run_to_psusp : let s := run (step {}) [.newJob 1 false 0 1 0 { queue := 0 }, .allocHosts 0 1 [(0, 1)],
      .jStatusChange 2 0 .RUN 0, .jStatusChange 3 0 .PSUSP 0] .blank
    0 ∈ s.live ∧ (s.jobs 0).jStatus.mask.psusp = true ∧ 0 ∉ (s.lists .PJL).entries ∧ 0 ∉ (s.lists .MJL).entries ∧
      0 ∈ (s.lists .SJL).entries := by
  decide

end OpenLava

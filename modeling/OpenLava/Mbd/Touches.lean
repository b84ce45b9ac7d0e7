import OpenLava.Mbd.Daemon

/-!
# What an operation on a job leaves alone

Every operation is about one job. It leaves the records of the other jobs and their places in the job lists alone.
-/

namespace OpenLava

open List

open Ledger (updateEach)

/-- Only job `j` changes; unless `relinks` the lists stay, unless `recounts` the tree. -/
structure Touches (relinks recounts : Bool) (j : JobRef) (s s' : Mbd) : Prop where
  live : s'.live = s.live
  replay : s'.replay = s.replay
  other : ∀ i, i ≠ j → s'.jobs i = s.jobs i
  otherLinks : ∀ i, i ≠ j → ∀ l, (s'.lists l).entries.count i = (s.lists l).entries.count i
  prio : ∀ q, (s'.queues q).priority = (s.queues q).priority
  rest : relinks = false → s'.lists = s.lists ∧ s'.ends = s.ends
  mask : recounts = false → (s'.jobs j).jStatus.mask = (s.jobs j).jStatus.mask
  node : recounts = false → (s'.jobs j).jgrpNode = (s.jobs j).jgrpNode
  tree : recounts = false → s'.nodes = s.nodes

namespace Touches

variable {r t : Bool} {j : JobRef} {s s' s'' : Mbd}

theorem refl (r t : Bool) (j : JobRef) (s : Mbd) : Touches r t j s s :=
  ⟨rfl, rfl, fun _ _ => rfl, fun _ _ _ => rfl, fun _ => rfl, fun _ => ⟨rfl, rfl⟩, fun _ => rfl, fun _ => rfl,
    fun _ => rfl⟩

theorem links (h : Touches r t j s s') (hr : r = false) (l : ListNo) : (s'.lists l).entries = (s.lists l).entries := by
  rw [(h.rest hr).1]

theorem trans (h : Touches r t j s s') (h' : Touches r t j s' s'') : Touches r t j s s'' where
  live := h'.live.trans h.live
  replay := h'.replay.trans h.replay
  other i hi := (h'.other i hi).trans (h.other i hi)
  otherLinks i hi l := (h'.otherLinks i hi l).trans (h.otherLinks i hi l)
  prio q := (h'.prio q).trans (h.prio q)
  rest hr := ⟨(h'.rest hr).1.trans (h.rest hr).1, (h'.rest hr).2.trans (h.rest hr).2⟩
  mask ht := (h'.mask ht).trans (h.mask ht)
  node ht := (h'.node ht).trans (h.node ht)
  tree ht := (h'.tree ht).trans (h.tree ht)

theorem ite [Decidable c] (h₁ : Touches r t j s s₁) (h₂ : Touches r t j s s2) : Touches r t j s (if c then s₁ else s2) := by
  split_ifs
  · exact h₁
  · exact h₂

theorem of_eq (hl : s'.live = s.live) (hr : s'.replay = s.replay) (hj : s'.jobs = s.jobs) (hs : s'.lists = s.lists)
    (hn : s'.nodes = s.nodes) (he : s'.ends = s.ends) (hp : ∀ q, (s'.queues q).priority = (s.queues q).priority) :
    Touches r t j s s' :=
  ⟨hl, hr, fun _ _ => by rw [hj], fun _ _ _ => by rw [hs], hp, fun _ => ⟨hs, he⟩, fun _ => by rw [hj],
    fun _ => by rw [hj], fun _ => hn⟩

theorem modJob (h : Touches r t j s s') (f : JData → JData)
    (hf : t = false → (f (s'.jobs j)).jStatus.mask = (s'.jobs j).jStatus.mask ∧
      (f (s'.jobs j)).jgrpNode = (s'.jobs j).jgrpNode) : Touches r t j s (s'.modJob j f) :=
  h.trans ⟨rfl, rfl, fun i hi => setJob_other s' j _ i hi, fun _ _ _ => rfl, fun _ => rfl,
    fun _ => ⟨rfl, rfl⟩, fun ht => by rw [modJob_job]; exact (hf ht).1, fun ht => by rw [modJob_job]; exact (hf ht).2,
    fun _ => rfl⟩

section

variable (h : Touches r t j s s')

include h

theorem post (jp : JData) (p : Posting) : Touches r t j s (post jp p s') :=
  h.trans (of_eq (post_live ..) (post_replay ..) (post_jobs ..) (post_lists ..) (post_nodes ..)
    (post_ends ..) (post_priority jp p s'))

theorem updCounters (jp : JData) (old : Mask) : Touches r t j s (updCounters jp old s') :=
  h.trans (of_eq (updCounters_live ..) (updCounters_replay ..) (updCounters_jobs ..) (updCounters_lists ..)
    (updCounters_nodes ..) (updCounters_ends ..) (updCounters_priority jp old s'))

theorem updResCounters (jp : JData) (n : JStatus) : Touches r t j s (updResCounters j jp n s') :=
  h.trans (of_eq (updResCounters_live ..) (updResCounters_replay ..) (updResCounters_jobs ..)
    (updResCounters_lists ..) (updResCounters_nodes ..) (updResCounters_ends ..) (updResCounters_priority j jp n s'))

theorem countPending (jp : JData) : Touches r t j s (countPending jp s') := by
  unfold OpenLava.countPending
  exact h.ite (h.post jp _)

theorem dropReserve : Touches r t j s (dropReserve j s') := by
  unfold OpenLava.dropReserve
  exact (h.updResCounters _ _).modJob _ fun _ => ⟨rfl, rfl⟩

theorem takeReserve : Touches r t j s (takeReserve j s') := by
  unfold OpenLava.takeReserve
  exact (h.updResCounters _ _).modJob _ fun _ => ⟨rfl, rfl⟩

theorem addDispJobs (hPtr : List HRef) (d : Int) : Touches r t j s (addDispJobs hPtr d s') :=
  h.trans (of_eq rfl rfl rfl rfl rfl rfl fun _ => rfl)

theorem allocHosts (n : Int) (cands : List (HRef × Nat)) : Touches r t j s (allocHosts j n cands s') := by
  unfold OpenLava.allocHosts
  exact h.ite ((h.addDispJobs _ _).modJob _ fun _ => ⟨rfl, rfl⟩)

theorem deallocHosts : Touches r t j s (deallocHosts j s') :=
  (h.addDispJobs _ _).modJob _ fun _ => ⟨rfl, rfl⟩

theorem freeReserveSlots : Touches r t j s (freeReserveSlots j s') := by
  unfold OpenLava.freeReserveSlots
  exact h.ite h.dropReserve.deallocHosts

theorem reserveSlots (C : Config) (now : Int) : Touches r t j s (reserveSlots C now j s') := by
  unfold OpenLava.reserveSlots
  have ht := (h.modJob (fun jp => { jp with reserveTime := if jp.reserveTime = 0 then now else jp.reserveTime })
    fun _ => ⟨rfl, rfl⟩).takeReserve
  refine h.ite (ht.ite (ht.trans (of_eq rfl rfl rfl rfl rfl rfl fun q => ?_)))
  dsimp only
  rw [Function.update_apply]
  split_ifs with hq
  · rw [hq]
  · rfl

theorem resetReserve (n : Mask) : Touches r t j s (resetReserve j n s') := by
  have hf : Touches r t j s ((OpenLava.freeReserveSlots j s').modJob j fun jp => { jp with reserveTime := 0 }) :=
    h.freeReserveSlots.modJob _ fun _ => ⟨rfl, rfl⟩
  unfold OpenLava.resetReserve
  exact h.ite ((hf.ite h).dropReserve.ite (hf.ite h))

end

theorem count_insertIdx_of_ne (hi : i ≠ j) (l : List JobRef) (n : Nat) : (l.insertIdx n j).count i = l.count i := by
  by_cases hn : n ≤ l.length
  · rw [(perm_insertIdx j l hn).count_eq, count_cons_of_ne (Ne.symm hi)]
  · rw [insertIdx_of_length_lt (by omega)]

section

variable (h : Touches true t j s s') (C : Config)

include h

theorem listRemoveEntry (l : ListNo) : Touches true t j s (listRemoveEntry l j s') :=
  h.trans ⟨rfl, rfl, fun _ _ => rfl, fun _ hi _ => count_erase_of_ne hi, fun _ => rfl, by simp, fun _ => rfl, fun _ => rfl,
    fun _ => rfl⟩

theorem offJobList (l : ListNo) : Touches true t j s (offJobList j l s') :=
  h.listRemoveEntry l

theorem listInsertEntryBefore (l : ListNo) (succ : Nat) : Touches true t j s (listInsertEntryBefore l succ j s') := by
  refine h.trans ⟨rfl, rfl, fun _ _ => rfl, fun i hi l' => ?_, fun _ => rfl, by simp, fun _ => rfl, fun _ => rfl, fun _ => rfl⟩
  by_cases hl : l' = l
  · subst hl
    simpa [OpenLava.listInsertEntryBefore] using count_insertIdx_of_ne hi _ _
  · simp [OpenLava.listInsertEntryBefore, hl]

theorem inFinishList : Touches true t j s (inFinishList j s') := by
  refine h.trans ⟨rfl, rfl, fun _ _ => rfl, fun i hi l => ?_, fun _ => rfl, by simp, fun _ => rfl, fun _ => rfl, fun _ => rfl⟩
  by_cases hl : l = .FJL
  · subst hl
    simp [OpenLava.inFinishList, count_cons_of_ne (Ne.symm hi)]
  · simp [OpenLava.inFinishList, hl]

theorem inPendJobList (l : ListNo) (time : Int) : Touches true t j s (inPendJobList C j l time s') :=
  (h.modJob _ fun _ => ⟨rfl, rfl⟩).listInsertEntryBefore _ _

theorem inStartJobList : Touches true t j s (inStartJobList j s') :=
  h.listInsertEntryBefore _ _

theorem inPendOrMigList (migTime pendTime : Int) : Touches true t j s (inPendOrMigList C j migTime pendTime s') := by
  unfold OpenLava.inPendOrMigList
  exact (((h.inPendJobList C _ _).modJob _ fun _ => ⟨rfl, rfl⟩).ite (h.inPendJobList C _ _)).ite
    (h.inPendJobList C _ _)

theorem jobInQueueEnd (q : QRef) : Touches true t j s (jobInQueueEnd C j q s') := by
  have ho := fun l => (h.offJobList l).modJob
    (fun job => { job with qPtr := q, jobBill := { job.jobBill with queue := q } }) fun _ => ⟨rfl, rfl⟩
  unfold OpenLava.jobInQueueEnd
  exact h.ite (((ho _).inPendOrMigList C _ _).ite (ho _).inStartJobList)

end

section

variable (h : Touches r true j s s')

include h

theorem nodes (nodes : NodeRef → JgTreeNode) : Touches r true j s { s' with nodes } :=
  h.trans ⟨rfl, rfl, fun _ _ => rfl, fun _ _ _ => rfl, fun _ => rfl, fun _ => ⟨rfl, rfl⟩, by simp, by simp, by simp⟩

theorem updJgrpCountByJStatus (node : NodeRef) (old new : Option Mask) :
    Touches r true j s (updJgrpCountByJStatus node old new s') :=
  h.nodes _

theorem updJgrpCountByOp (node : NodeRef) (factor : Int) : Touches r true j s (updJgrpCountByOp node factor s') :=
  h.nodes _

theorem setStatus (n : Mask) : Touches r true j s (setStatus j n s') := by
  unfold OpenLava.setStatus
  exact (((h.updJgrpCountByJStatus _ _ _).ite h).modJob _ (by simp)).modJob _ (by simp)

theorem putOntoTree (nodeType : NodeType) : Touches r true j s (putOntoTree j nodeType s') := by
  have hj := (h.nodes (Function.update s'.nodes [j] { nodeType })).modJob (fun jp => { jp with jgrpNode := [j] }) (by simp)
  cases nodeType with
  | JOB => exact hj.updJgrpCountByJStatus _ _ _
  | ARRAY | GROUP => exact hj.updJgrpCountByOp _ _

end

theorem moveToStart (h : Touches true t j s s') : Touches true t j s (moveToStart j s') := by
  unfold OpenLava.moveToStart
  exact ((h.modJob _ fun _ => ⟨rfl, rfl⟩).offJobList _).inStartJobList

theorem changeJobParams_keeps (C : Config) (newSub : JobBill) (jp : JData) :
    (changeJobParams C newSub jp).jStatus.mask = jp.jStatus.mask ∧
      (changeJobParams C newSub jp).jgrpNode = jp.jgrpNode := by
  unfold changeJobParams
  split_ifs <;> exact ⟨rfl, rfl⟩

theorem restoreSub_keeps (C : Config) (jp : JData) : (jp.restoreSub C).jStatus.mask = jp.jStatus.mask ∧ (jp.restoreSub C).jgrpNode = jp.jgrpNode := by
  unfold JData.restoreSub
  split
  · split_ifs
    · exact changeJobParams_keeps C _ jp
    · exact ⟨rfl, rfl⟩
  · exact ⟨rfl, rfl⟩

section

variable (h : Touches true t j s s') (C : Config)

include h

theorem handleFinishJob (old : JStatus) : Touches true t j s (handleFinishJob C j old s') := by
  unfold OpenLava.handleFinishJob
  exact ((h.modJob _ fun _ => ⟨rfl, rfl⟩).offJobList _).inFinishList.modJob _ fun _ => restoreSub_keeps C _

theorem moveToFinish (old : JStatus) : Touches true t j s (moveToFinish C j old s') := by
  have hr : ∀ jp : JData, jp.exitReason.jStatus.mask = jp.jStatus.mask ∧ jp.exitReason.jgrpNode = jp.jgrpNode := fun jp => by
    unfold JData.exitReason
    split_ifs <;> exact ⟨rfl, rfl⟩
  exact Touches.handleFinishJob (h.modJob _ fun _ => hr _) C old

theorem moveToPend (now : Int) : Touches true t j s (moveToPend C now j s') := by
  have hu : ∀ jp : JData, jp.unstart.jStatus.mask = jp.jStatus.mask ∧ jp.unstart.jgrpNode = jp.jgrpNode := fun jp => by
    unfold JData.unstart
    split_ifs <;> exact ⟨rfl, rfl⟩
  unfold OpenLava.moveToPend
  exact (((h.listRemoveEntry _).modJob _ fun _ => hu _).inPendOrMigList C _ _).modJob _
    fun _ => ⟨rfl, rfl⟩

theorem moveJob (now : Int) (old : JStatus) (n : Mask) : Touches true t j s (moveJob C now j old n s') := by
  unfold OpenLava.moveJob
  exact h.moveToStart.ite ((h.moveToFinish C old).ite ((h.moveToPend C now).ite
    ((h.modJob _ fun _ => ⟨rfl, rfl⟩).ite h)))

end

theorem countJob (h : Touches true true j s s') (C : Config) (logIt : Bool) (old n : Mask) :
    Touches true true j s (countJob C logIt j old n s') := by
  unfold OpenLava.countJob
  exact (h.updCounters _ _).ite ((((h.offJobList _).modJob _ (by simp)).inPendJobList C _ _).ite h)

theorem jStatusChange (h : Touches true true j s s') (C : Config) (now : Int) (n : Mask) (eventTime : Int) :
    Touches true true j s (jStatusChange C now j n eventTime s') := by
  have hmove := fun s1 (h1 : Touches true true j s s1) =>
    (((h1.setStatus n).moveJob C now (s'.jobs j).jStatus n).countJob C (eventTime = 0) (s'.jobs j).jStatus.mask n)
  have ha := hmove _ ((h.resetReserve n).ite (c := eventTime = 0) h)
  unfold OpenLava.jStatusChange
  exact h.ite ((ha.modJob freeExecParams (by simp)).ite ha)

theorem setPriority (h : Touches true t j s s') (C : Config) : Touches true t j s (setPriority C j s') := by
  unfold OpenLava.setPriority
  exact ((h.modJob _ fun _ => ⟨rfl, rfl⟩).offJobList _).inPendJobList C _ _

theorem suspendRequeued (h : Touches r true j s s') : Touches r true j s (suspendRequeued j s') := by
  unfold OpenLava.suspendRequeued
  exact ((h.modJob _ (by simp)).updJgrpCountByJStatus _ _ _).ite (h.modJob _ (by simp))

theorem handleRequeueJob (h : Touches true true j s s') (C : Config) (time : Int) :
    Touches true true j s (handleRequeueJob C time j s') := by
  unfold OpenLava.handleRequeueJob
  exact ((((((((h.modJob _ (by simp)).updJgrpCountByJStatus _ _ _).modJob _ (by simp)).offJobList _).inPendJobList
    C _ _).suspendRequeued).modJob _ (by simp)).countPending _)

theorem arrayRequeue1 (h : Touches true true j s s') (C : Config) (now : Int) (req : RequeueReq) :
    Touches true true j s (arrayRequeue1 C now req s' j) := by
  unfold OpenLava.arrayRequeue1
  have hr := (h.handleRequeueJob C now).modJob (fun jp => { jp with startTime := 0, endTime := 0 }) (by simp)
  exact ((((hr.updJgrpCountByJStatus _ _ _).modJob _ (by simp)).modJob _ (by simp)).ite
    (hr.modJob _ (by simp))).ite ((h.modJob _ (by simp)).ite h)

theorem postInQueue (h : Touches r t j s s') (q : QRef) (p : Posting) : Touches r t j s (postInQueue j q p s') := by
  have hq := h.modJob (·.inQueue q) fun _ => ⟨rfl, rfl⟩
  unfold OpenLava.postInQueue
  exact hq.ite (hq.post _ _)

theorem updSwitchJob (h : Touches r t j s s') (qfp qtp : QRef) (num : Int) :
    Touches r t j s (updSwitchJob j qfp qtp num s') := by
  have hd := ((h.modJob (·.inQueue qfp) fun _ => ⟨rfl, rfl⟩).dropReserve.modJob (·.inQueue qtp)
    fun _ => ⟨rfl, rfl⟩).ite (c := (s'.jobs j).jStatus.reserve) h
  unfold OpenLava.updSwitchJob
  dsimp only
  generalize (if (s'.jobs j).jStatus.reserve then
    (OpenLava.dropReserve j (s'.modJob j (·.inQueue qfp))).modJob j (·.inQueue qtp) else s') = s1 at hd ⊢
  cases switchPostings (s1.jobs j) num with
  | none => exact hd.takeReserve.ite hd
  | some p =>
    have hpos := (hd.postInQueue qfp p.1).postInQueue qtp p.2
    exact hpos.takeReserve.ite hpos

theorem switchAJob (h : Touches true t j s s') (C : Config) (q : QRef) (verdict : SwitchVerdict) :
    Touches true t j s (switchAJob C j q verdict s') := by
  have hd : ∀ (n : Nat) (jp : JData), (jp.useDefaultProcessors n).jStatus.mask = jp.jStatus.mask ∧ (jp.useDefaultProcessors n).jgrpNode = jp.jgrpNode :=
    fun n jp => by
      unfold JData.useDefaultProcessors
      split_ifs <;> exact ⟨rfl, rfl⟩
  have hl := h.modJob (·.useDefaultProcessors (s'.queues q).defaultProcessors) fun _ =>
    hd _ _
  have hf := fun (c : Prop) [Decidable c] =>
    (hl.freeReserveSlots.modJob (fun jp => { jp with reserveTime := 0 }) fun _ => ⟨rfl, rfl⟩).ite (c := c) hl
  unfold OpenLava.switchAJob
  exact h.ite (hl.ite ((((hf _).jobInQueueEnd C q).updSwitchJob _ _ _).modJob _ fun _ => ⟨rfl, rfl⟩))

theorem readRecord (h : Touches r t j s s') (env : ReplayEnv) (newStat : JobStatusLog) :
    Touches r t j s (s'.setJob j ((s'.jobs j).readRecord env newStat).1) :=
  h.modJob (fun jp => (jp.readRecord env newStat).1) fun _ => (readRecord_keeps env newStat _).2

theorem replayNewstat (h : Touches true true j s s') (C : Config) (env : ReplayEnv) (eventTime : Int)
    (newStat : JobStatusLog) : Touches true true j s (replayNewstat C env eventTime j newStat s') := by
  have hkno := h.modJob (·.withUnkwn false) (by simp)
  have hr := hkno.readRecord env newStat
  unfold OpenLava.replayNewstat
  exact (h.modJob _ (by simp)).ite ((h.modJob _ (by simp)).ite (hkno.ite
    ((hr.jStatusChange C _ _ _).ite hr)))

end Touches

structure IsElement (jarray jp : JData) : Prop where
  node : jp.jgrpNode = jarray.jgrpNode
  mask : jp.jStatus.mask = if jarray.jobBill.hold then .PSUSP else jarray.jStatus.mask
  reserve : jarray.jStatus.reserve = false → jp.jStatus.reserve = false

structure Elements (jarray : JData) (P : Finset JobRef) (s s' : Mbd) : Prop where
  live : s'.live = s.live ∪ P
  queues : s'.queues = s.queues
  nodes : s'.nodes = s.nodes
  replay : s'.replay = s.replay
  other : ∀ i, i ∉ P → s'.jobs i = s.jobs i
  element : ∀ i ∈ P, IsElement jarray (s'.jobs i)

theorem newElement_elements (jarray : JData) (e : JobRef × Int) : Elements jarray {e.1} s (newElement C jarray s e) := by
  have ht := (Touches.refl true true e.1 ({ s.setJob e.1 { jarray with jobId := e.2 } with
    live := insert e.1 s.live } : Mbd)).inPendJobList C .PJL 0
  unfold newElement
  refine ⟨?_, ?_, ?_, ?_, fun i hi => ?_, fun i hi => ?_⟩
  · split_ifs <;> exact Finset.insert_eq _ _ |>.trans (Finset.union_comm _ _)
  · split_ifs <;> rfl
  · split_ifs <;> rfl
  · split_ifs <;> rfl
  · rw [Finset.mem_singleton] at hi
    split_ifs
    · rw [Mbd.modJob, setJob_other _ _ _ _ hi, ht.other i hi]
      exact setJob_other _ _ _ _ hi
    · rw [ht.other i hi]
      exact setJob_other _ _ _ _ hi
  · rw [Finset.mem_singleton] at hi
    subst hi
    split_ifs with hh <;> constructor <;> simp [inPendJobList_jobs, hh]

theorem newElements (jarray : JData) (elems : List (JobRef × Int)) (s : Mbd) :
    Elements jarray (elems.map Prod.fst).toFinset s (elems.foldl (newElement C jarray) s) := by
  induction elems generalizing s with
  | nil => exact ⟨by simp, rfl, rfl, rfl, fun _ _ => rfl, by simp⟩
  | cons e elems ih =>
    have h1 := newElement_elements (C := C) (s := s) jarray e
    have h2 := ih (newElement C jarray s e)
    rw [map_cons, toFinset_cons]
    refine ⟨?_, h2.queues.trans h1.queues, h2.nodes.trans h1.nodes, h2.replay.trans h1.replay, fun i hi => ?_,
      fun i hi => ?_⟩
    · rw [foldl_cons, h2.live, h1.live, Finset.union_assoc, Finset.insert_eq]
    · rw [Finset.mem_insert, not_or] at hi
      exact (h2.other i hi.2).trans (h1.other i (by simpa using hi.1))
    · by_cases hin : i ∈ (elems.map Prod.fst).toFinset
      · exact h2.element i hin
      · rw [foldl_cons, h2.other i hin]
        exact h1.element i (by simpa [hin] using hi)

end OpenLava

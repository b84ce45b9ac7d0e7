import OpenLava.Mbd.Touches

/-!
# The counters of the job group tree

Every live job is counted in its node and in all the ancestors of the node. While an operation is under way the tree may
count a job under another status than its record has; `CountedAs` names it.
-/

namespace OpenLava

open Function List Ledger Mask Run

/-- What a job under `status` adds to a counter of a node; nodes of single jobs have none. -/
def nodeShare (nodes : NodeRef → JgTreeNode) (jgrpNode : NodeRef) (status : Option Mask) (a : NodeRef × JgrpCounter) :
    Int :=
  if (nodes a.1).nodeType ≠ .JOB ∧ a.1 <:+ jgrpNode then jgrpUnit status a.2 else 0

def treeBook (nodes : NodeRef → JgTreeNode) (a : NodeRef × JgrpCounter) : Int :=
  if (nodes a.1).nodeType ≠ .JOB then (nodes a.1).counts a.2 else 0

/-- The tree counts each live job under the status that `M` gives it. -/
def CountedAs (M : JobRef → Option Mask) (s : Mbd) : Prop :=
  Balanced s.live (fun j => nodeShare s.nodes (s.jobs j).jgrpNode (M j)) (treeBook s.nodes)

def statusOf (s : Mbd) (j : JobRef) : Option Mask := some (s.jobs j).jStatus.mask

def Counted (s : Mbd) : Prop := CountedAs (statusOf s) s

variable {C : Config} {r : Bool} {s s' : Mbd} {j : JobRef} {M M' : JobRef → Option Mask}

theorem nodup_tails (node : NodeRef) : node.tails.Nodup := by
  induction node with
  | nil => simp
  | cons x node ih =>
    rw [tails_cons, nodup_cons, mem_tails]
    exact ⟨fun h => by simpa using h.length_le, ih⟩

theorem updJgrpCountByJStatus_nodes (node : NodeRef) (old new : Option Mask) (n : NodeRef) :
    (updJgrpCountByJStatus node old new s).nodes n = if n <:+ node then (s.nodes n).count old new else s.nodes n := by
  have ha := updateEach_apply_of_nodup (fun _ => JgTreeNode.count old new) (nodup_tails node) s.nodes n
  simp only [mem_tails] at ha
  exact ha

@[simp] theorem count_nodeType (g : JgTreeNode) (old new : Option Mask) : (g.count old new).nodeType = g.nodeType := by
  unfold JgTreeNode.count
  split <;> simp_all

theorem count_counts {g : JgTreeNode} (h : g.nodeType ≠ .JOB) (old new : Option Mask) (c : JgrpCounter) :
    (g.count old new).counts c = g.counts c - jgrpUnit old c + jgrpUnit new c := by
  unfold JgTreeNode.count
  split <;> simp_all

theorem CountedAs.congr (h : CountedAs M s) (hl : s'.live = s.live) (hn : s'.nodes = s.nodes)
    (hnode : ∀ i ∈ s.live, (s'.jobs i).jgrpNode = (s.jobs i).jgrpNode)
    (hM : ∀ i ∈ s.live, ∀ c, jgrpUnit (M' i) c = jgrpUnit (M i) c) : CountedAs M' s' := by
  unfold CountedAs
  rw [hl, hn]
  refine Balanced.congr h fun i hi a => ?_
  unfold nodeShare
  rw [hnode i hi, hM i hi]

structure SameTree (s s' : Mbd) : Prop where
  live : s'.live = s.live
  nodes : s'.nodes = s.nodes
  mask : ∀ i, (s'.jobs i).jStatus.mask = (s.jobs i).jStatus.mask
  node : ∀ i, (s'.jobs i).jgrpNode = (s.jobs i).jgrpNode

theorem Touches.sameTree (ht : Touches r false j s s') : SameTree s s' := by
  refine ⟨ht.live, ht.tree rfl, fun i => ?_, fun i => ?_⟩ <;> by_cases hij : i = j
  · rw [hij, ht.mask rfl]
  · rw [ht.other i hij]
  · rw [hij, ht.node rfl]
  · rw [ht.other i hij]

theorem SameTree.trans (h : SameTree s₁ s₂) (h' : SameTree s₂ s₃) : SameTree s₁ s₃ :=
  ⟨h'.live.trans h.live, h'.nodes.trans h.nodes, fun i => (h'.mask i).trans (h.mask i),
    fun i => (h'.node i).trans (h.node i)⟩

theorem SameTree.modEach (hf : ∀ jp, (f jp).jStatus.mask = jp.jStatus.mask ∧ (f jp).jgrpNode = jp.jgrpNode)
    (jobs : List JobRef) (s : Mbd) : SameTree s (jobs.foldl (fun s j => s.modJob j f) s) := by
  induction jobs generalizing s with
  | nil => exact ⟨rfl, rfl, fun _ => rfl, fun _ => rfl⟩
  | cons j jobs ih => exact ((Touches.refl false false j s).modJob f fun _ => hf _).sameTree.trans (ih _)

theorem CountedAs.same (h : CountedAs M s) (hs : SameTree s s') : CountedAs M s' :=
  h.congr hs.live hs.nodes (fun i _ => hs.node i) fun _ _ _ => rfl

theorem CountedAs.touch (h : CountedAs M s) (ht : Touches r false j s s') : CountedAs M s' := h.same ht.sameTree

theorem Counted.same (h : Counted s) (hs : SameTree s s') : Counted s' :=
  CountedAs.congr h hs.live hs.nodes (fun i _ => hs.node i) fun i _ c => by rw [statusOf, hs.mask]; rfl

theorem Counted.touch (h : Counted s) (ht : Touches r false j s s') : Counted s' := h.same ht.sameTree

theorem CountedAs.recount (h : CountedAs M s) (hj : j ∈ s.live) (new : Option Mask) :
    CountedAs (update M j new) (updJgrpCountByJStatus (s.jobs j).jgrpNode (M j) new s) := by
  set s' := updJgrpCountByJStatus (s.jobs j).jgrpNode (M j) new s with hs'
  have ht : ∀ n, (s'.nodes n).nodeType = (s.nodes n).nodeType := fun n => by
    rw [hs', updJgrpCountByJStatus_nodes]
    split_ifs <;> simp
  have hb : ∀ a, treeBook s'.nodes a = treeBook s.nodes a +
      (nodeShare s.nodes (s.jobs j).jgrpNode new a - nodeShare s.nodes (s.jobs j).jgrpNode (M j) a) := by
    intro a
    unfold treeBook nodeShare
    rw [ht]
    by_cases hjob : (s.nodes a.1).nodeType = .JOB
    · simp [hjob]
    · rw [if_pos hjob, if_pos hjob, hs', updJgrpCountByJStatus_nodes]
      by_cases hs : a.1 <:+ (s.jobs j).jgrpNode
      · rw [if_pos hs, if_pos ⟨hjob, hs⟩, if_pos ⟨hjob, hs⟩, count_counts hjob]
        ring
      · simp [hs]
  refine (Balanced.post h hj _ hb).congr fun i hi a => ?_
  unfold nodeShare
  rw [ht]
  by_cases hij : i = j
  · subst hij
    simp only [update_self]
    rfl
  · simp only [update_of_ne hij]
    rfl

/-- A replayed change counted under one status and left in another: a waiting chunk member goes
back. -/
def Unchunks (s : Mbd) (j : JobRef) (n : Mask) (eventTime : Int) : Prop :=
  s.replay = true ∧ eventTime ≠ 0 ∧ (s.jobs j).jStatus.mask.run ∧ (s.jobs j).jStatus.mask.wait ∧ (n.ssusp ∨ n.ususp)
  deriving Decidable

theorem statusOf_update (ho : ∀ i, i ≠ j → s'.jobs i = s.jobs i) (hj : (s'.jobs j).jStatus.mask = m) :
    statusOf s' = update (statusOf s) j (some m) := by
  funext i
  by_cases hij : i = j
  · subst hij
    rw [update_self, statusOf, hj]
  · rw [update_of_ne hij, statusOf, statusOf, ho i hij]

theorem Counted.setMask (h : Counted s) (hn : (f (s.jobs j)).jgrpNode = (s.jobs j).jgrpNode)
    (hm : getIndexOfJStatus (f (s.jobs j)).jStatus.mask = getIndexOfJStatus (s.jobs j).jStatus.mask) :
    Counted (s.modJob j f) := by
  refine CountedAs.congr h rfl rfl (fun i _ => ?_) fun i _ c => ?_ <;> by_cases hij : i = j
  · rw [hij, modJob_job, hn]
  · rw [Mbd.modJob, setJob_other _ _ _ _ hij]
  · rw [hij, statusOf, modJob_job]
    simp only [jgrpUnit, statusOf, hm]
  · rw [statusOf, Mbd.modJob, setJob_other _ _ _ _ hij]
    rfl

theorem Counted.setStatus (h : Counted s) (hj : j ∈ s.live) (hid : 0 ≤ (s.jobs j).jobId) (n : Mask) :
    Counted (setStatus j n s) := by
  have ht := (Touches.refl false true j s).setStatus n
  have hc := CountedAs.recount h hj (some n)
  have hs : statusOf (OpenLava.setStatus j n s) = update (statusOf s) j (some n) :=
    statusOf_update ht.other (setStatus_mask j n s)
  unfold Counted
  rw [hs]
  refine hc.congr ht.live ?_ (fun i _ => ?_) fun _ _ _ => rfl
  · unfold OpenLava.setStatus
    rw [if_pos hid]
    rfl
  · by_cases hij : i = j
    · subst hij
      rw [setStatus_job]
      unfold JData.clearTimes
      split_ifs <;> rfl
    · rw [ht.other i hij]
      rfl

theorem resetReserve_jobId (n : Mask) : ((resetReserve j n s).jobs j).jobId = (s.jobs j).jobId := by
  have hd : ∀ s : Mbd, ((dropReserve j s).jobs j).jobId = (s.jobs j).jobId := fun s => by
    rw [dropReserve_jobs, modJob_job]
    rfl
  have hf : ((freeReserveSlots j s).jobs j).jobId = (s.jobs j).jobId := by
    unfold freeReserveSlots
    split_ifs
    · rw [deallocHosts, modJob_job]
      exact hd s
    · rfl
  unfold resetReserve
  dsimp only
  split_ifs <;> simp [hd, hf]

theorem Counted.jStatusChange (h : Counted s) (hj : j ∈ s.live) (hid : 0 ≤ (s.jobs j).jobId) (now : Int) (n : Mask)
    (eventTime : Int) (hchu : ¬ Unchunks s j n eventTime) : Counted (jStatusChange C now j n eventTime s) := by
  unfold OpenLava.jStatusChange
  dsimp only
  split
  · exact h
  · set s1 := if eventTime = 0 then resetReserve j n s else s with hs1
    have ht : Touches false false j s s1 := ((Touches.refl _ _ j s).resetReserve n).ite (.refl _ _ j s)
    have hid1 : 0 ≤ (s1.jobs j).jobId := by
      rw [hs1]
      split_ifs
      · rwa [resetReserve_jobId]
      · exact hid
    have hset := (h.touch ht).setStatus (ht.live ▸ hj) hid1 n
    have htm := (Touches.refl true false j (OpenLava.setStatus j n s1)).moveJob C now (s.jobs j).jStatus n
    have hmove := hset.touch htm
    set s2 := moveJob C now j (s.jobs j).jStatus n (OpenLava.setStatus j n s1)
    have hr : s2.replay = s.replay :=
      (htm.replay.trans ((Touches.refl false true j s1).setStatus n).replay).trans ht.replay
    have hc : Counted (countJob C (eventTime = 0) j (s.jobs j).jStatus.mask n s2) := by
      unfold countJob
      split
      · exact hmove.touch (r := false) ((Touches.refl _ _ j s2).updCounters _ _)
      · rename_i hl
        rw [not_or, not_not, decide_eq_true_eq] at hl
        rw [if_neg fun hw => hchu ⟨hr ▸ hl.1, hl.2, hw⟩]
        exact hmove
    split
    · exact hc.touch (r := false) ((Touches.refl _ _ j _).modJob freeExecParams fun _ => ⟨rfl, rfl⟩)
    · exact hc

theorem Counted.recount (h : Counted s) (hj : j ∈ s.live) (hold : (s.jobs j).jStatus.mask = old)
    (hn : (f (s.jobs j)).jgrpNode = (s.jobs j).jgrpNode) (hnew : (f (s.jobs j)).jStatus.mask = new) :
    Counted ((updJgrpCountByJStatus (s.jobs j).jgrpNode (some old) (some new) s).modJob j f) := by
  have hc := CountedAs.recount h hj (some new)
  rw [statusOf, hold] at hc
  have ht := ((Touches.refl true true j s).updJgrpCountByJStatus (s.jobs j).jgrpNode (some old) (some new)).modJob f
    (by simp)
  unfold Counted
  rw [statusOf_update (m := new) ht.other (by rw [modJob_job]; exact hnew)]
  refine hc.congr rfl rfl (fun i _ => ?_) fun _ _ _ => rfl
  by_cases hij : i = j
  · subst hij
    rw [modJob_job]
    exact hn
  · rw [ht.other i hij]
    rfl

theorem prepareRequeue_keeps (jp : JData) : (jp.prepareRequeue C).jStatus.mask = jp.jStatus.mask ∧
    (jp.prepareRequeue C).jgrpNode = jp.jgrpNode := by
  unfold JData.prepareRequeue
  dsimp only
  split
  · exact Touches.changeJobParams_keeps C _ _
  · exact ⟨rfl, rfl⟩

theorem Counted.suspendRequeued (h : Counted s) (hj : j ∈ s.live) (hm : (s.jobs j).jStatus = { mask := .PEND }) :
    Counted (suspendRequeued j s) := by
  unfold OpenLava.suspendRequeued
  dsimp only
  split
  · have hc := h.recount hj (f := fun jp =>
      { jp with jStatus := { mask := .PSUSP }, newReason := PEND_USER_STOP, sig1Flags := 0 }) (by rw [hm]) rfl rfl
    rw [modJob_job]
    exact hc
  · exact h.touch (r := false) ((Touches.refl _ _ j s).modJob _ fun _ => ⟨rfl, rfl⟩)

theorem Counted.handleRequeueJob (h : Counted s) (hj : j ∈ s.live) (time : Int) :
    Counted (handleRequeueJob C time j s) := by
  have hprep : Touches true false j s (s.modJob j (·.prepareRequeue C)) :=
    (Touches.refl _ _ j s).modJob _ fun _ => prepareRequeue_keeps _
  have hc := (h.touch hprep).recount hj rfl (f := fun jp => { jp with jStatus := { mask := .PEND } }) rfl rfl
  set s1 := (updJgrpCountByJStatus _ _ _ (s.modJob j (·.prepareRequeue C))).modJob j _ with hs1
  have ht : Touches true false j s1 (inPendJobList C j .PJL time (offJobList j .FJL s1)) :=
    ((Touches.refl _ _ j s1).offJobList .FJL).inPendJobList C .PJL time
  have hm : ((inPendJobList C j .PJL time (offJobList j .FJL s1)).jobs j).jStatus = { mask := .PEND } := by
    rw [inPendJobList_jobs, hs1]
    simp
  exact ((hc.touch ht).suspendRequeued (ht.live ▸ hj) hm).touch (r := false)
    (((Touches.refl _ _ j _).modJob freeExecParams fun _ => ⟨rfl, rfl⟩).countPending _)

/-- Unless it is to be suspended when it is requeued, a requeued job is in PEND. -/
theorem handleRequeueJob_pend (time : Int) (hs : (s.jobs j).sig1Flags ≠ JOB_STAT_PSUSP) :
    ((handleRequeueJob C time j s).jobs j).jStatus = { mask := .PEND } := by
  have hprep : ∀ jp : JData, (jp.prepareRequeue C).sig1Flags = jp.sig1Flags := fun jp => by
    unfold JData.prepareRequeue changeJobParams
    dsimp only
    split
    · split_ifs <;> rfl
    · rfl
  unfold handleRequeueJob
  simp only [countPending_jobs, modJob_job, freeExecParams, suspendRequeued, inPendJobList_jobs, offJobList_jobs]
  rw [if_neg]
  · simp [inPendJobList_jobs]
  · simpa [updJgrpCountByJStatus, hprep] using hs

/-- An element that `arrayRequeue` requeues at once. -/
def requeuedAtOnce (req : RequeueReq) (m : Mask) : Prop := m.done ∧ req.requeueDone ∨ m.exit ∧ req.requeueExit
  deriving Decidable

/-- `arrayRequeue` counts an element as PSUSP on its own; `handleRequeueJob` must not. -/
theorem Counted.arrayRequeue1 (h : Counted s) (hj : j ∈ s.live) (now : Int)
    (hs : requeuedAtOnce req (s.jobs j).jStatus.mask → (s.jobs j).sig1Flags ≠ JOB_STAT_PSUSP) :
    Counted (arrayRequeue1 C now req s j) := by
  unfold OpenLava.arrayRequeue1
  dsimp only
  split
  · rename_i hr
    have hpend := handleRequeueJob_pend (C := C) now (hs hr)
    have ht := (h.handleRequeueJob (C := C) hj now).touch (r := false)
      ((Touches.refl _ _ j _).modJob (fun jp => { jp with startTime := 0, endTime := 0 }) fun _ => ⟨rfl, rfl⟩)
    have hl : j ∈ (OpenLava.handleRequeueJob C now j s).live := by rwa [handleRequeueJob_live]
    set s1 := (OpenLava.handleRequeueJob C now j s).modJob j fun jp => { jp with startTime := 0, endTime := 0 } with hs1
    have hm : (s1.jobs j).jStatus = { mask := .PEND } := by rw [hs1, modJob_job]; exact hpend
    split
    · exact (ht.recount hl (by rw [hm]) (f := (·.withMask .PSUSP)) rfl rfl).touch (r := false)
        ((Touches.refl _ _ j _).modJob _ fun _ => ⟨rfl, rfl⟩)
    · exact ht.setMask (f := (·.withMask .PEND)) rfl (by rw [hm]; rfl)
  · split
    · exact h.touch (r := false) ((Touches.refl _ _ j s).modJob _ fun _ => ⟨rfl, rfl⟩)
    · exact h

theorem Counted.arrayRequeue (h : Counted s) (now : Int) (req : RequeueReq) (node : Option NodeRef)
    (elems : List JobRef) (hn : elems.Nodup) (ha : ∀ j ∈ elems, j ∈ s.live ∧
      (requeuedAtOnce req (s.jobs j).jStatus.mask → (s.jobs j).sig1Flags ≠ JOB_STAT_PSUSP)) :
    Counted (arrayRequeue C now req node elems s) := by
  have hf : Counted (elems.foldl (OpenLava.arrayRequeue1 C now req) s) := by
    induction elems generalizing s with
    | nil => exact h
    | cons j elems ih =>
      obtain ⟨hnot, hr⟩ := nodup_cons.mp hn
      obtain ⟨hl, hs⟩ := ha j (by simp)
      have ht := (Touches.refl true true j s).arrayRequeue1 C now req
      refine ih (h.arrayRequeue1 hl now hs) hr fun i hi => ?_
      have hij : i ≠ j := fun hij => hnot (hij ▸ hi)
      rw [ht.live, ht.other i hij]
      exact ha i (by simp [hi])
  unfold OpenLava.arrayRequeue
  dsimp only
  split
  · exact h
  · exact hf

theorem nodeShare_none (nodes : NodeRef → JgTreeNode) (node : NodeRef) (a : NodeRef × JgrpCounter) :
    nodeShare nodes node none a = 0 := by simp [nodeShare, jgrpUnit]

theorem nodeShare_congr {nodes nodes' : NodeRef → JgTreeNode} (h : ∀ n, (nodes' n).nodeType = (nodes n).nodeType)
    (node : NodeRef) (m : Option Mask) (a : NodeRef × JgrpCounter) : nodeShare nodes' node m a = nodeShare nodes node m a := by
  unfold nodeShare
  rw [h]

theorem CountedAs.enter (h : CountedAs M s) (hj : j ∉ s.live) (jp : JData) :
    CountedAs (update M j none) { s.setJob j jp with live := insert j s.live } := by
  have he : Balanced (insert j s.live) _ (treeBook s.nodes) := Balanced.enter h hj (fun _ => 0) (by simp)
  refine he.congr fun i hi a => ?_
  by_cases hij : i = j
  · subst hij
    simp [nodeShare_none]
  · simp only [update_of_ne hij, Mbd.setJob_jobs, Mbd.setJob_nodes]

theorem CountedAs.modNone (h : CountedAs M s) (hM : M j = none) (f : JData → JData) : CountedAs M (s.modJob j f) := by
  refine Balanced.congr h fun i hi a => ?_
  by_cases hij : i = j
  · subst hij
    simp only [hM, nodeShare_none]
  · simp only [Mbd.modJob_jobs, update_of_ne hij, Mbd.modJob_nodes]

theorem CountedAs.newNode (h : CountedAs M s) (n : NodeRef) (nodeType : NodeType)
    (hf : nodeType = .JOB ∨ ∀ i ∈ s.live, ¬ n <:+ (s.jobs i).jgrpNode) :
    CountedAs M { s with nodes := update s.nodes n { nodeType } } := by
  intro a
  by_cases ha : a.1 = n
  · have hz : ∀ i ∈ s.live, nodeShare (update s.nodes n { nodeType }) (s.jobs i).jgrpNode (M i) a = 0 := by
      intro i hi
      unfold nodeShare
      rw [ha, update_self]
      rcases hf with hj | hn
      · simp [hj]
      · simp [hn i hi]
    have hb : treeBook (update s.nodes n { nodeType }) a = 0 := by simp [treeBook, ha]
    exact hb.trans (Finset.sum_eq_zero hz).symm
  · have hb : treeBook (update s.nodes n { nodeType }) a = treeBook s.nodes a := by
      simp only [treeBook, update_of_ne ha]
    refine hb.trans ((h a).trans (total_congr fun i _ => ?_))
    simp only [nodeShare, update_of_ne ha]

theorem putOntoTree_entered (jp : JData) : (putOntoTree j .JOB (inPendJobList C j .PJL 0
    { s.setJob j jp with live := insert j s.live })).jobs j = { jp with sigDelRequeue := false, jgrpNode := [j] } := by
  simp [putOntoTree, updJgrpCountByJStatus, inPendJobList_jobs]

theorem Counted.putOntoTree (h : Counted s) (hj : j ∉ s.live) (jp : JData) :
    Counted (putOntoTree j .JOB (inPendJobList C j .PJL 0 { s.setJob j jp with live := insert j s.live })) := by
  have he := CountedAs.enter h hj jp
  set s0 : Mbd := { s.setJob j jp with live := insert j s.live } with hs0
  have ht1 : Touches true false j s0 (inPendJobList C j .PJL 0 s0) := (Touches.refl _ _ j s0).inPendJobList C .PJL 0
  have hlist := he.touch ht1
  set s1 := inPendJobList C j .PJL 0 s0
  have hn := (hlist.newNode [j] .JOB (.inl rfl)).modNone (update_self ..) fun jp => { jp with jgrpNode := [j] }
  set s2 := (({ s1 with nodes := update s1.nodes [j] { nodeType := .JOB } } : Mbd).modJob j fun jp =>
    { jp with jgrpNode := [j] }) with hs2
  have hl : j ∈ s2.live := by
    show j ∈ s1.live
    exact Finset.mem_insert_self j s.live
  have ht := hn.recount hl (some (s2.jobs j).jStatus.mask)
  rw [update_self, update_idem, show (s2.jobs j).jgrpNode = [j] by rw [hs2, modJob_job]] at ht
  have ho : ∀ i, i ≠ j → (OpenLava.putOntoTree j .JOB s1).jobs i = s.jobs i := fun i hij => by
    rw [(((Touches.refl true true j s0).inPendJobList C .PJL 0).putOntoTree .JOB).other i hij, hs0]
    exact setJob_other s j jp i hij
  unfold Counted
  rw [statusOf_update (s := s) ho rfl]
  exact ht

theorem Counted.handleNewJob (h : Counted s) (hj : j ∉ s.live) (now : Int) (fromLog : Bool)
    (hid : 0 ≤ jp.jobId) (hm : jp.jStatus.mask = .PEND) : Counted (handleNewJob C now fromLog j jp s) := by
  have htree := h.putOntoTree (C := C) hj jp
  have hj := putOntoTree_entered (C := C) (s := s) (j := j) jp
  unfold OpenLava.handleNewJob
  dsimp only
  set s1 := OpenLava.putOntoTree j .JOB _ with hs1
  have ht2 : Touches true false j s1 (countPending (s1.jobs j) s1) := (Touches.refl _ _ j s1).countPending _
  have hj2 : (countPending (s1.jobs j) s1).jobs j = s1.jobs j := by rw [countPending_jobs]
  set s2 := countPending (s1.jobs j) s1
  have ht3 : Touches true false j s1 (if fromLog = true ∧ 0 < C.maxUserPriority then setPriority C j s2 else s2) :=
    (ht2.setPriority C).ite ht2
  have hj3 : ((if fromLog = true ∧ 0 < C.maxUserPriority then setPriority C j s2 else s2).jobs j).jobId = jp.jobId := by
    split_ifs
    · simp [setPriority, inPendJobList_jobs, JData.replayPriority, modifyJobPriority, hj2, hj]
    · rw [hj2, hj]
  set s3 := if fromLog = true ∧ 0 < C.maxUserPriority then setPriority C j s2 else s2
  have hc := htree.touch ht3
  split
  · have hr := hc.touch (r := false)
      ((Touches.refl _ _ j s3).modJob (fun jp => { jp with newReason := PEND_USER_STOP }) fun _ => ⟨rfl, rfl⟩)
    refine hr.jStatusChange ?_ ?_ now .PSUSP (-1) fun hchu => ?_
    · show j ∈ s3.live
      rw [ht3.live, hs1, (((Touches.refl true true j _).inPendJobList C .PJL 0).putOntoTree .JOB).live]
      exact Finset.mem_insert_self j s.live
    · rw [modJob_job]
      exact hj3 ▸ hid
    · have hr := hchu.2.2.1
      rw [modJob_job] at hr
      rw [show (s3.jobs j).jStatus.mask = .PEND by rw [ht3.mask rfl, hj, hm]] at hr
      cases hr
  · exact hc

theorem CountedAs.elements (h : CountedAs M s) (he : Elements jarray P s s')
    (hd : Disjoint s.live P) : CountedAs (fun i => if i ∈ P then none else M i) s' := by
  intro a
  rw [he.nodes, h a, he.live, total, total, Finset.sum_union hd, Finset.sum_eq_zero (s := P), add_zero]
  · refine Finset.sum_congr rfl fun i hi => ?_
    have hn : i ∉ P := Finset.disjoint_left.mp hd hi
    simp only [he.other i hn, if_neg hn]
  · intro i hi
    simp only [if_pos hi, nodeShare_none]

theorem updJgrpCountByOp_nodes (jgrp : NodeRef) (factor : Int) (n : NodeRef) :
    (updJgrpCountByOp jgrp factor s).nodes n = if n ∈ jgrp.tails.tail then
      { s.nodes n with counts := fun c => (s.nodes n).counts c +
        if (s.nodes jgrp).nodeType = .JOB ∨ c = .outOfBound then 0 else factor * (s.nodes jgrp).counts c }
    else s.nodes n := by
  unfold updJgrpCountByOp
  dsimp only
  rw [updateEach_apply_of_nodup _ (nodup_tails jgrp).tail]
  split_ifs <;> rfl

theorem updJgrpCountByOp_zero (h : ∀ c, (s.nodes jgrp).counts c = 0) (factor : Int) :
    (updJgrpCountByOp jgrp factor s).nodes = s.nodes := by
  funext n
  rw [updJgrpCountByOp_nodes]
  simp [h]

theorem Counted.newArray (h : Counted s) (ha : a ∉ s.live) (hf : ∀ i ∈ s.live, ¬ [a] <:+ (s.jobs i).jgrpNode)
    (jp : JData) : CountedAs (statusOf s) (OpenLava.putOntoTree a .ARRAY (s.setJob a jp)) ∧
    (OpenLava.putOntoTree a .ARRAY (s.setJob a jp)).nodes [a] = { nodeType := .ARRAY } := by
  have hne : ∀ i ∈ s.live, i ≠ a := fun i hi hia => ha (hia ▸ hi)
  have hset : CountedAs (statusOf s) (s.setJob a jp) :=
    CountedAs.congr h rfl rfl (fun i hi => by rw [setJob_other _ _ _ _ (hne i hi)]) fun _ _ _ => rfl
  have hn := hset.newNode [a] .ARRAY
    (.inr fun i hi => by rw [setJob_other _ _ _ _ (hne i hi)]; exact hf i hi)
  set s1 : Mbd := { s.setJob a jp with nodes := update (s.setJob a jp).nodes [a] { nodeType := .ARRAY } }
  set s2 := s1.modJob a fun jp => { jp with jgrpNode := [a] }
  have hs : s2.nodes [a] = { nodeType := .ARRAY } := update_self ..
  have hz : (updJgrpCountByOp [a] 1 s2).nodes = s2.nodes := updJgrpCountByOp_zero (by simp [hs]) 1
  have ho : ∀ i ∈ s1.live, (s2.jobs i).jgrpNode = (s1.jobs i).jgrpNode := fun i hi =>
    congrArg JData.jgrpNode (setJob_other s1 a _ i (hne i hi))
  exact ⟨hn.congr rfl hz ho fun _ _ _ => rfl, (congrFun hz [a]).trans hs⟩

theorem getIndexOfJStatus_ne_NJOBS (m : Mask) : getIndexOfJStatus m ≠ .NJOBS := by
  unfold getIndexOfJStatus
  dsimp only
  split_ifs <;> simp

theorem countArray_nodes (hn : jarray.jgrpNode = [a]) (hs : s.nodes [a] = { nodeType := .ARRAY })
    (hm : m = if jarray.jobBill.hold then Mask.PSUSP else jarray.jStatus.mask) (hb : getIndexOfJStatus m ≠ .outOfBound)
    (num : Int) (n : NodeRef) : ((countArray jarray num s).nodes n).nodeType = (s.nodes n).nodeType ∧ ∀ c,
    ((countArray jarray num s).nodes n).counts c = (s.nodes n).counts c + if n <:+ [a] then num * jgrpUnit (some m)
    c else 0 := by
  have hu : ∀ c, num * jgrpUnit (some m) c = if c = .NJOBS ∨ c = getIndexOfJStatus m then num else 0 := by
    intro c
    have hne := getIndexOfJStatus_ne_NJOBS m
    unfold jgrpUnit
    by_cases hc : c = .NJOBS
    · subst hc
      simp [hne]
    · by_cases hc' : c = getIndexOfJStatus m
      · simp [hc, ← hc']
      · simp [hc, hc', Ne.symm hc']
  set node : JgTreeNode := { s.nodes [a] with
    counts := fun c => if c = .NJOBS ∨ c = getIndexOfJStatus m then num else (s.nodes [a]).counts c } with hnd
  set s1 : Mbd := { s with nodes := update s.nodes [a] node }
  have hcount : countArray jarray num s = updJgrpCountByOp [a] 1 s1 := by
    unfold countArray
    rw [hn, ← hm]
  have hs1 : s1.nodes [a] = node := update_self ..
  have hcou : ∀ c, node.counts c = num * jgrpUnit (some m) c := fun c => by rw [hu, hnd, hs]
  rw [hcount, updJgrpCountByOp_nodes]
  by_cases hr : n = []
  · subst hr
    have hne : ([] : NodeRef) ≠ [a] := by simp
    have ho : s1.nodes [] = s.nodes [] := update_of_ne hne node s.nodes
    rw [if_pos (by simp)]
    refine ⟨by rw [ho], fun c => ?_⟩
    have ht : node.nodeType ≠ .JOB := by rw [hnd, hs]; simp
    rw [hs1, ho]
    dsimp only
    rw [hcou, one_mul, if_pos nil_suffix]
    by_cases hc : c = .outOfBound
    · have hz : num * jgrpUnit (some m) c = 0 := by rw [hu, if_neg (by simp [hc, Ne.symm hb])]
      rw [if_pos (.inr hc), hz]
    · rw [if_neg (not_or.mpr ⟨ht, hc⟩)]
  · rw [if_neg (by simp [hr])]
    by_cases hn : n = [a]
    · subst hn
      rw [hs1]
      exact ⟨rfl, fun c => by rw [if_pos suffix_rfl, hcou, hs, zero_add]⟩
    · have ho : s1.nodes n = s.nodes n := update_of_ne hn node s.nodes
      rw [ho]
      exact ⟨rfl, fun c => by rw [if_neg (by simp [suffix_cons_iff, hn, hr]), add_zero]⟩

theorem Counted.handleNewJobArray (h : Counted s) (ha : a ∉ s.live) (hf : ∀ i ∈ s.live, ¬ [a] <:+ (s.jobs i).jgrpNode)
    (hm : jp.jStatus.mask = .PEND) (hn : ∀ e ∈ elems, e.1 ∉ s.live) (hnod : (elems.map Prod.fst).Nodup) :
    Counted (handleNewJobArray C a jp elems s) := by
  obtain ⟨htree, hself⟩ := h.newArray ha hf jp
  have ht : Touches false true a s (OpenLava.putOntoTree a .ARRAY (s.setJob a jp)) :=
    ((Touches.refl false true a s).modJob (fun _ => jp) (by simp)).putOntoTree .ARRAY
  have hj : ((OpenLava.putOntoTree a .ARRAY (s.setJob a jp)).jobs a) = { jp with jgrpNode := [a] } := by
    simp [OpenLava.putOntoTree, updJgrpCountByOp]
  unfold OpenLava.handleNewJobArray
  set s1 := OpenLava.putOntoTree a .ARRAY (s.setJob a jp)
  set jarray := s1.jobs a
  set P := (elems.map Prod.fst).toFinset with hP
  have hd : Disjoint s1.live P := by
    rw [ht.live, Finset.disjoint_right]
    intro i hi
    obtain ⟨e, he, rfl⟩ := mem_map.mp (mem_toFinset.mp hi)
    exact hn e he
  have he := newElements (C := C) jarray elems s1
  set s2 := elems.foldl (newElement C jarray) s1
  have hc2 := htree.elements he hd
  have hs : SameTree s2 (if s2.replay then
      (if 0 < C.maxUserPriority then (a :: elems.map Prod.fst).foldl (fun s j => s.modJob j (·.replayPriority C)) s2 else s2)
      else post jarray (pendPosting (jarray.maxNumProcessors * elems.length)) s2) := by
    split
    · split
      · exact SameTree.modEach (f := JData.replayPriority C) (fun _ => ⟨rfl, rfl⟩) _ s2
      · exact (Touches.refl false false a s2).sameTree
    · exact ((Touches.refl false false a s2).post _ _).sameTree
  set s3 := if s2.replay then _ else post _ _ s2
  have hc3 := hc2.same hs
  set m := if jarray.jobBill.hold then Mask.PSUSP else jarray.jStatus.mask with hmdef
  have hb : getIndexOfJStatus m ≠ .outOfBound := by
    rw [hmdef, hj, hm]
    split_ifs <;> decide
  have hself3 : s3.nodes [a] = { nodeType := .ARRAY } := by rw [hs.nodes, he.nodes, hself]
  have hn := countArray_nodes (s := s3) (a := a) (by rw [hj]) hself3 hmdef hb elems.length
  have hcard : (P.card : Int) = elems.length := by rw [hP, toFinset_card_of_nodup hnod, length_map]
  refine Balanced.postEach hc3 (P := P) ?_ (nodeShare s3.nodes [a] (some m)) ?_ ?_ ?_
  · rw [hs.live, he.live]
    exact Finset.subset_union_right
  · intro i hi hnot b
    have hia : i ≠ a := by
      rw [hs.live, he.live, ht.live, Finset.mem_union] at hi
      exact fun hia => ha (hia ▸ hi.resolve_right hnot)
    have hsta : statusOf (countArray jarray elems.length s3) i = statusOf s i := by
      show some (s3.jobs i).jStatus.mask = some (s.jobs i).jStatus.mask
      rw [hs.mask, he.other i hnot, ht.other i hia]
    have hM : (if i ∈ P then none else statusOf s i) = statusOf s i := if_neg hnot
    rw [nodeShare_congr fun n => (hn n).1, hsta]
    exact congrArg (fun m => nodeShare s3.nodes (s3.jobs i).jgrpNode m b) hM.symm
  · intro i hi b
    have hM : (if i ∈ P then none else statusOf s i) = none := if_pos hi
    have hnone : nodeShare s3.nodes (s3.jobs i).jgrpNode (if i ∈ P then none else statusOf s i) b = 0 := by
      rw [hM, nodeShare_none]
    have hsta : statusOf (countArray jarray elems.length s3) i = some m := by
      show some (s3.jobs i).jStatus.mask = some m
      rw [hs.mask, (he.element i hi).mask]
    have hnode : ((countArray jarray elems.length s3).jobs i).jgrpNode = [a] := by
      show (s3.jobs i).jgrpNode = [a]
      rw [hs.node, (he.element i hi).node, hj]
    rw [nodeShare_congr fun n => (hn n).1, hsta, hnode]
    exact (by rw [hnone, zero_add] : nodeShare s3.nodes [a] (some m) b = nodeShare s3.nodes (s3.jobs i).jgrpNode
      (if i ∈ P then none else statusOf s i) b + nodeShare s3.nodes [a] (some m) b)
  · intro b
    unfold treeBook nodeShare
    rw [(hn b.1).1, hcard]
    by_cases hj : (s3.nodes b.1).nodeType = .JOB
    · simp [hj]
    · rw [if_pos hj, if_pos hj, (hn b.1).2]
      by_cases hs : b.1 <:+ [a] <;> simp [hs, hj]

theorem CountedAs.leave (h : CountedAs M s) (hM : M j = none) : CountedAs M { s with live := s.live.erase j } :=
  Balanced.leave h fun a => by rw [hM, nodeShare_none]

theorem jgrpUnit_NJOBS (m : Mask) : jgrpUnit (some m) .NJOBS = 1 := by
  simp [jgrpUnit, getIndexOfJStatus_ne_NJOBS]

theorem jgrpUnit_nonneg (m : Option Mask) (c : JgrpCounter) : 0 ≤ jgrpUnit m c := by
  unfold jgrpUnit
  split
  · exact le_rfl
  · split_ifs <;> omega

/-- A node that counts no job has no counts at all. -/
theorem CountedAs.counts_zero (h : CountedAs M s) (hn : (s.nodes n).nodeType ≠ .JOB) (hM : ∀ i ∈ s.live, (M i).isSome)
    (hz : (s.nodes n).counts .NJOBS ≤ 0) (c : JgrpCounter) : (s.nodes n).counts c = 0 := by
  have hc : ∀ c, (s.nodes n).counts c = ∑ i ∈ s.live, nodeShare s.nodes (s.jobs i).jgrpNode (M i) (n, c) := fun c => by
    have := h (n, c)
    rwa [treeBook, if_pos hn] at this
  have hnone : ∀ i ∈ s.live, ¬ n <:+ (s.jobs i).jgrpNode := by
    intro i hi hs
    obtain ⟨m, hm⟩ := Option.isSome_iff_exists.mp (hM i hi)
    have hle : nodeShare s.nodes (s.jobs i).jgrpNode (M i) (n, .NJOBS) ≤ (s.nodes n).counts .NJOBS := by
      rw [hc]
      refine Finset.single_le_sum (f := fun i => nodeShare s.nodes (s.jobs i).jgrpNode (M i) (n, .NJOBS)) (fun k _ => ?_) hi
      unfold nodeShare
      split_ifs
      · exact jgrpUnit_nonneg _ _
      · exact le_rfl
    rw [nodeShare, if_pos ⟨hn, hs⟩, hm, jgrpUnit_NJOBS] at hle
    omega
  rw [hc]
  refine Finset.sum_eq_zero fun i hi => ?_
  rw [nodeShare, if_neg fun ha => hnone i hi ha.2]

theorem Counted.removeJob (h : Counted s) (hj : j ∈ s.live) : Counted (removeJob j s) := by
  have hn := (CountedAs.recount h hj none).leave (j := j) (update_self ..)
  unfold OpenLava.removeJob
  dsimp only
  set s1 := updJgrpCountByJStatus (s.jobs j).jgrpNode (some (s.jobs j).jStatus.mask) none
    (offJobList j .FJL { s with live := s.live.erase j }) with hs1
  have hc : Counted s1 := by
    refine hn.congr rfl rfl (fun _ _ => rfl) fun i hi c => ?_
    rw [update_of_ne (Finset.ne_of_mem_erase hi)]
    rfl
  split
  · rename_i ha
    split
    · rename_i he
      have hz := CountedAs.counts_zero hc (by rw [ha]; simp) (fun _ _ => rfl) he
      refine CountedAs.congr hc rfl (updJgrpCountByOp_zero hz (-1)) (fun _ _ => rfl) fun _ _ _ => rfl
    · exact hc
  · exact hc
  · exact hc

/-- Post-execution ends of jobs counted as such, and changes that take no chunk member back. -/
def ReplayCounts (s : Mbd) (j : JobRef) (new : Mask) (eventTime : Int) : Prop :=
  if new.isPostFinish then getIndexOfJStatus new = getIndexOfJStatus (s.jobs j).jStatus.mask
  else 0 ≤ (s.jobs j).jobId ∧ ¬ Unchunks s j new eventTime
  deriving Decidable

theorem Counted.setUnkwn (h : Counted s) (b : Bool) : Counted (s.modJob j (·.withUnkwn b)) :=
  h.setMask (f := (·.withUnkwn b)) rfl rfl

theorem Counted.postFinish (h : Counted s) (pdone perr : Bool) : Counted (s.modJob j (·.postFinish pdone perr)) := by
  refine h.setMask (f := (·.postFinish pdone perr)) ?_ ?_ <;> unfold JData.postFinish <;> dsimp only <;> split_ifs <;> rfl

theorem Counted.replayNewstat (h : Counted s) (hj : j ∈ s.live) (env : ReplayEnv)
    (hok : ReplayCounts s j newStat.jStatus eventTime) : Counted (replayNewstat C env eventTime j newStat s) := by
  unfold ReplayCounts at hok
  unfold OpenLava.replayNewstat
  split
  · rename_i hpost
    rw [if_pos hpost] at hok
    exact h.setMask (f := fun jp => { jp with jStatus := { mask := newStat.jStatus }, endTime := newStat.endTime }) rfl hok
  · rename_i hpost
    rw [if_neg hpost] at hok
    split
    · exact h.setUnkwn true
    · dsimp only
      split
      · exact h.setUnkwn false
      · have ht := (Touches.refl false false j (s.modJob j (·.withUnkwn false))).readRecord env newStat
        have hr := (h.setUnkwn (j := j) false).touch ht
        split
        · refine hr.jStatusChange hj ?_ eventTime newStat.jStatus eventTime fun hc => hok.2 ?_
          · rw [setJob_job, (readRecord_keeps env newStat _).1, modJob_job]
            exact hok.1
          · unfold Unchunks at hc
            rw [setJob_job, (readRecord_keeps env newStat _).2.1, modJob_job] at hc
            exact hc
        · exact hr

/-- The operations the tree follows: new jobs are new, and requeued elements are counted once. -/
def Countable (op : Op) (s : Mbd) : Prop :=
  match op with
  | .newJob _ _ j jobId _ _ => j ∉ s.live ∧ 0 ≤ jobId
  | .newJobArray a _ _ _ elems =>
    a ∉ s.live ∧ (∀ i ∈ s.live, ¬ [a] <:+ (s.jobs i).jgrpNode) ∧ (∀ e ∈ elems, e.1 ∉ s.live) ∧
      (elems.map Prod.fst).Nodup
  | .jStatusChange _ j newStatus eventTime =>
    j ∈ s.live ∧ 0 ≤ (s.jobs j).jobId ∧ ¬ Unchunks s j newStatus eventTime
  | .handleRequeueJob _ j | .removeJob j => j ∈ s.live
  | .arrayRequeue _ sigPtr _ elems => elems.Nodup ∧ ∀ j ∈ elems, j ∈ s.live ∧
      (requeuedAtOnce sigPtr (s.jobs j).jStatus.mask → (s.jobs j).sig1Flags ≠ JOB_STAT_PSUSP)
  | .replayNewstat _ eventTime j newStat => j ∈ s.live ∧ ReplayCounts s j newStat.jStatus eventTime
  | .allocHosts .. | .deallocHosts _ | .reserveSlots .. | .freeReserveSlots _ | .takeReserve _ | .dropReserve _
  | .switchAJob .. | .modify .. | .note .. | .setUnkwn .. | .postFinish ..
  | .moveAJob .. | .endReplay => True

instance : (op : Op) → (s : Mbd) → Decidable (Countable op s)
  | .newJob .. , _ | .newJobArray .. , _ | .jStatusChange .. , _ | .arrayRequeue .. , _ | .replayNewstat .. , _ =>
    inferInstanceAs (Decidable (_ ∧ _))
  | .handleRequeueJob .. , s | .removeJob _, s => inferInstanceAs (Decidable (_ ∈ s.live))
  | .allocHosts .. , _ | .deallocHosts _, _ | .reserveSlots .. , _ | .freeReserveSlots _, _ | .takeReserve _, _
  | .dropReserve _, _ | .switchAJob .. , _ | .modify .. , _ | .note .. , _ | .setUnkwn .. , _ | .postFinish .. , _
  | .moveAJob .. , _ | .endReplay, _ => inferInstanceAs (Decidable True)

theorem Counted.step (op : Op) (s : Mbd) (h : Counted s) (hop : Countable op s) : Counted (step C op s) := by
  cases op with
  | newJob now fromLog j jobId user bill => exact h.handleNewJob hop.1 now fromLog hop.2 rfl
  | newJobArray a jobId user bill elems => exact h.handleNewJobArray hop.1 hop.2.1 rfl hop.2.2.1 hop.2.2.2
  | jStatusChange now j n eventTime => exact h.jStatusChange hop.1 hop.2.1 now n eventTime hop.2.2
  | allocHosts j n cands => exact h.touch (r := false) ((Touches.refl _ _ j s).allocHosts n cands)
  | deallocHosts j => exact h.touch (r := false) (Touches.refl _ _ j s).deallocHosts
  | reserveSlots now j => exact h.touch (r := false) ((Touches.refl _ _ j s).reserveSlots C now)
  | freeReserveSlots j => exact h.touch (r := false) (Touches.refl _ _ j s).freeReserveSlots
  | takeReserve j => exact h.touch (r := false) (Touches.refl _ _ j s).takeReserve
  | dropReserve j => exact h.touch (r := false) (Touches.refl _ _ j s).dropReserve
  | switchAJob j q verdict => exact h.touch ((Touches.refl _ _ j s).switchAJob C q verdict)
  | moveAJob j moveReq =>
    obtain ⟨lists, ends, heq⟩ := moveAJob_relisted C j moveReq s
    show Counted (moveAJob C j moveReq s)
    rw [heq]
    exact h.same ⟨rfl, rfl, fun _ => rfl, fun _ => rfl⟩
  | handleRequeueJob time j => exact h.handleRequeueJob hop time
  | arrayRequeue now req node elems => exact h.arrayRequeue now req node elems hop.1 hop.2
  | removeJob j => exact h.removeJob hop
  | modify j newSub => exact h.setMask (f := fun jp => { jp with newSub := some newSub }) rfl rfl
  | note j n => exact h.setMask (f := n.write) rfl rfl
  | setUnkwn j b => exact h.setUnkwn b
  | postFinish j pdone perr => exact h.postFinish pdone perr
  | replayNewstat env eventTime j newStat => exact h.replayNewstat hop.1 env hop.2
  | endReplay =>
    obtain ⟨hj, hl, -, hn⟩ := endReplay_frame s
    exact h.same ⟨hl, hn, fun i => congrArg (fun jobs : JobRef → JData => (jobs i).jStatus.mask) hj,
      fun i => congrArg (fun jobs : JobRef → JData => (jobs i).jgrpNode) hj⟩

theorem Mbd.Initial.counted (h : s.Initial) : Counted s := fun a => by
  simp [treeBook, h.live, h.nodes]

def elementJobs (s : Mbd) (n : NodeRef) : Finset JobRef := s.live.filter fun j => n <:+ (s.jobs j).jgrpNode

/-- Over every run each counter of a node is the number of its element jobs with such a status. -/
theorem jgrp_counts_of_run (C : Config) (s₀ : Mbd) (h₀ : s₀.Initial) (ops : List Op)
    (hops : Meets (step C) Countable ops s₀) (n : NodeRef) (hn : ((run (step C) ops s₀).nodes n).nodeType ≠ .JOB) :
    let s := run (step C) ops s₀
    (s.nodes n).counts .NJOBS = (elementJobs s n).card ∧
      ∀ c, c ≠ .NJOBS → (s.nodes n).counts c =
        ((elementJobs s n).filter fun j => getIndexOfJStatus (s.jobs j).jStatus.mask = c).card := by
  intro s
  have hc : Counted s := run_invariant Counted.step ops s₀ h₀.counted hops
  have hcou : ∀ c, (s.nodes n).counts c = ∑ j ∈ elementJobs s n, jgrpUnit (statusOf s j) c := fun c => by
    have hb := hc (n, c)
    rw [treeBook, if_pos hn] at hb
    rw [elementJobs, Finset.sum_filter]
    exact hb.trans (Finset.sum_congr rfl fun j _ => if_congr (and_iff_right hn) rfl rfl)
  refine ⟨?_, fun c hc => ?_⟩
  · have ho : ∀ j ∈ elementJobs s n, jgrpUnit (statusOf s j) .NJOBS = 1 := fun j _ => jgrpUnit_NJOBS _
    rw [hcou, Finset.sum_congr rfl ho, Finset.sum_const, nsmul_eq_mul, mul_one]
  · rw [hcou, Finset.card_filter, Nat.cast_sum]
    refine Finset.sum_congr rfl fun j _ => ?_
    simp [jgrpUnit, statusOf, hc]

/-- An array of two, one of which runs and is requeued as suspended when it exits. -/
theorem jgrp_counts_of_run_requeue :
    let ops : List Op := [.newJobArray 7 1 0 { queue := 0 } [(1, 3), (2, 4)], .allocHosts 1 1 [(0, 1)],
      .jStatusChange 2 1 .RUN 0, .jStatusChange 3 1 .EXIT 0,
      .arrayRequeue 4 ⟨false, true, false, JOB_STAT_PSUSP⟩ (some [7]) [1, 2]]
    let s := run (step {}) ops .blank
    Meets (step {}) Countable ops .blank ∧ (s.nodes [7]).nodeType ≠ .JOB ∧ (s.nodes [7]).counts .NPSUSP = 1 := by
  refine ⟨by decide, by decide, ?_⟩
  rw [(jgrp_counts_of_run {} .blank Mbd.blank_initial _ (by decide) [7] (by decide)).2 .NPSUSP (by decide)]
  decide

/-- An element to be suspended when requeued, requeued as suspended with its array, counts twice. -/
theorem jgrp_counts_requeued_twice :
    let ops : List Op := [.newJobArray 7 1 0 { queue := 0 } [(1, 3), (2, 4)], .allocHosts 1 1 [(0, 1)],
      .jStatusChange 2 1 .RUN 0, .arrayRequeue 3 ⟨false, false, true, JOB_STAT_PSUSP⟩ (some [7]) [1, 2],
      .jStatusChange 4 1 .EXIT 0, .arrayRequeue 5 ⟨false, true, false, JOB_STAT_PSUSP⟩ (some [7]) [1, 2]]
    let s := run (step {}) ops .blank
    (s.nodes [7]).counts .NPSUSP = 2 ∧ (s.nodes [7]).counts .PEND = 0 ∧
      ((elementJobs s [7]).filter fun j => getIndexOfJStatus (s.jobs j).jStatus.mask = .NPSUSP).card = 1 := by
  decide

end OpenLava

import OpenLava.Mbd.SlotCounts

/-!
# Submission, requeue, queue switch and removal on the books

A job enters and leaves with nothing on the books, and begins to pend with the slots it asks for.
-/

namespace OpenLava

open List Ledger Mask

variable {j : JobRef} {s : Mbd} {jp : JData}

variable {jarray : JData} {qfp qtp : QRef}

theorem entryAt_finished_zero (jp : JData) (r : Bool) : (entryAt jp .finished r).Zero :=
  ⟨rfl, fun c => by cases c <;> rfl⟩

theorem KeptBut.rezero (h : KeptBut j (entryAt jp .finished r) s) (jp' : JData) (r' : Bool)
    (hh : jp'.hPtr = [] ∨ jp'.hPtr = jp.hPtr) : KeptBut j (entryAt jp' .finished r') s := by
  have hp : (entryAt jp' .finished r').Placed s := by
    rcases hh with hh | hh <;> simp only [Entry.Placed, entryAt, hh]
    · simp
    · exact h.placed
  exact h.replace (entryAt_finished_zero jp' r').sound hp ((entryAt_finished_zero jp r).same (entryAt_finished_zero jp' r'))

theorem pendPosting_realises : Realises jp (pendPosting jp.maxNumProcessors)
    (pendBy jp .pending false - pendBy jp .finished false) fun c => heldBy .pending false c - heldBy .finished false c := by
  refine realises_shift (fun c => ?_) (.inr ⟨rfl, fun c => ?_⟩)
  · cases c <;> simp [pendPosting, tally, heldBy, pendBy, entryAt, Entry.amount, hostTally]
  · cases c <;> rfl

theorem KeptBut.countPending (h : KeptBut j (entryAt jp .finished false) s) :
    KeptBut j (entryAt jp .pending false) (countPending jp s) := by
  rw [OpenLava.countPending, h.replay]
  exact h.move pendPosting_realises (entryAt_sound (by simp))

theorem KeptBut.beginPend (h : KeptBut j (entryAt jp .finished r) s) (hh : (s.jobs j).hPtr = [])
    (hph : (s.jobs j).phase = some .pending) (hr : (s.jobs j).jStatus.reserve = false) :
    Kept (OpenLava.countPending (s.jobs j) s) :=
  ((h.rezero (s.jobs j) false (.inl hh)).countPending).closeAt _ (by rw [countPending_jobs]) hph hr rfl rfl rfl (fun _ => rfl) (by simp)

theorem Only.suspendRequeued (h : Only j s s') : Only j s (suspendRequeued j s') := by
  unfold OpenLava.suspendRequeued
  split_ifs
  · exact (h.modJob _).updJgrpCountByJStatus _ _ _
  · exact h.modJob _

theorem Kept.handleRequeueJob (h : Kept s) (hj : j ∈ s.live) (hf : (s.jobs j).phase = some .finished)
    (requeueTime : Int) : Kept (handleRequeueJob C requeueTime j s) := by
  unfold OpenLava.handleRequeueJob
  dsimp only
  set s1 := OpenLava.inPendJobList C j .PJL requeueTime _ with hs1
  have ho : Only j s s1 :=
    ((((Only.refl j s).modJob _).updJgrpCountByJStatus _ _ _).modJob _ |>.offJobList j .FJL).inPendJobList C _ _
  have hsta : (s1.jobs j).jStatus = { mask := .PEND } := by
    rw [hs1, inPendJobList_jobs]
    simp
  have hb := (h.butAt hj hf).only (ho.suspendRequeued.modJob freeExecParams)
  refine hb.beginPend (by simp [freeExecParams]) ?_ ?_ <;>
    simp only [modJob_job, JData.phase, freeExecParams] <;>
    rcases suspendRequeued_status hsta with hm | hm <;> rw [hm] <;> rfl

theorem Kept.enter (h : Kept s) (hj : j ∉ s.live) (jp : JData) (hh : jp.hPtr = []) :
    KeptBut j (entryAt jp .finished false) { s.setJob j jp with live := insert j s.live } where
  replay := h.replay
  live := Finset.mem_insert_self j s.live
  fit i hi hij := by
    rw [show ({ s.setJob j jp with live := insert j s.live } : Mbd).jobs i = s.jobs i from
      setJob_other s j jp i hij]
    exact h.fit i (Finset.mem_of_mem_insert_of_ne hi hij)
  books := by
    have he : Function.update (entries { s.setJob j jp with live := insert j s.live }) j
        (entryAt jp .finished false) = Function.update (entries s) j (entryAt jp .finished false) := by
      funext i
      by_cases hij : i = j
      · simp [hij]
      · simp [hij, entries, Mbd.setJob_jobs]
    rw [he]
    have hs : SameBooks { s with live := insert j s.live } { s.setJob j jp with live := insert j s.live } :=
      .of_eq rfl rfl rfl rfl
    exact hs.books (h.books.enter hj (entryAt_finished_zero jp false) (by simp [Entry.Placed, entryAt, hh]))

theorem Only.putOntoTree (h : Only j s s') (ty : NodeType) : Only j s (putOntoTree j ty s') := by
  have h' := (h.setNodes (Function.update s'.nodes [j] { nodeType := ty })).modJob fun jp =>
    { jp with jgrpNode := [j] }
  cases ty with
  | JOB => exact h'.updJgrpCountByJStatus _ _ _
  | ARRAY => exact h'.setNodes _
  | GROUP => exact h'.setNodes _

theorem putOntoTree_job (ty : NodeType) : (putOntoTree j ty s).jobs j = { s.jobs j with jgrpNode := [j] } := by
  cases ty <;> simp [putOntoTree, updJgrpCountByJStatus, updJgrpCountByOp]

theorem Kept.hold (h : Kept s) (hj : j ∈ s.live) (hm : (s.jobs j).jStatus = { mask := .PEND }) (now : Int) :
    Kept (OpenLava.jStatusChange C now j .PSUSP (-1) (s.modJob j fun jp => { jp with newReason := PEND_USER_STOP })) := by
  refine (h.modJob _ ⟨rfl, rfl, rfl, fun _ => rfl, rfl, rfl⟩).jStatusChange hj now .PSUSP (-1) (.inr ⟨?_, ?_, ?_⟩)
  · rw [modJob_job, hm]
    decide
  · intro hr
    simp [hm] at hr
  · intro hf
    simp [isFinish, PSUSP] at hf

theorem Kept.handleNewJob (h : Kept s) (hj : j ∉ s.live) (now : Int) (fromLog : Bool) (jobId : Int) (u : URef)
    (bill : JobBill) : Kept (handleNewJob C now fromLog j (initJData jobId u bill) s) := by
  unfold OpenLava.handleNewJob
  dsimp only
  set s0 : Mbd := { s.setJob j (initJData jobId u bill) with live := insert j s.live }
  set s1 := OpenLava.putOntoTree j .JOB (OpenLava.inPendJobList C j .PJL 0 s0) with hs1
  have hm1 : (s1.jobs j).jStatus = { mask := .PEND } := by
    rw [hs1, putOntoTree_job, inPendJobList_jobs]
    simp [s0, initJData]
  have ho : Only j s0 s1 := ((Only.refl j s0).inPendJobList C _ _).putOntoTree _
  have hb := (h.enter hj (initJData jobId u bill) rfl).only ho
  have hkept : Kept (OpenLava.countPending (s1.jobs j) s1) := by
    refine hb.beginPend (by rw [hs1, putOntoTree_job, inPendJobList_jobs]; simp [s0, initJData]) ?_ ?_ <;>
      simp only [JData.phase, hm1]
    rfl
  set s2 := OpenLava.countPending (s1.jobs j) s1 with hs2
  have hm2 : (s2.jobs j).jStatus = { mask := .PEND } := by rw [hs2, countPending_jobs, hm1]
  have hj2 : j ∈ s2.live := by rw [hs2, countPending_live]; exact hb.live
  -- a new priority only moves the job in its list
  have hprio : Quiet (s2.jobs j).phase j s2 (setPriority C j s2) :=
    (((Quiet.refl _ j s2).modJob ⟨rfl, rfl, rfl, fun _ => rfl, rfl, rfl⟩).offJobList j .PJL).inPendJobList C _ _
  set s3 := if fromLog = true ∧ 0 < C.maxUserPriority then setPriority C j s2 else s2 with hs3
  have hkept3 : Kept s3 ∧ j ∈ s3.live ∧ (s3.jobs j).jStatus = { mask := .PEND } := by
    rw [hs3]
    split_ifs
    · exact ⟨hkept.quiet hprio, hprio.live ▸ hj2, by simpa [setPriority, inPendJobList_jobs] using hm2⟩
    · exact ⟨hkept, hj2, hm2⟩
  split_ifs
  · exact hkept3.1.hold hkept3.2.1 hkept3.2.2 now
  · exact hkept3.1

theorem Kept.setMask (h : Kept s) (hj : j ∈ s.live) (hph : (s.jobs j).phase = some ph)
    (hn : n.phase = some ph) : Kept (s.modJob j (·.withMask n)) := by
  refine ((h.butAt hj hph).only ((Only.refl j s).modJob (·.withMask n))).closeAt _ (modJob_job s j _) hn rfl rfl
    rfl rfl (fun _ => rfl) fun hr => ?_
  simpa [hph] using (h.fit j hj).reserve hr

theorem Kept.setUnkwn (h : Kept s) (hj : j ∈ s.live) (b : Bool) : Kept (s.modJob j (·.withUnkwn b)) := by
  obtain ⟨ph, hph⟩ := h.phase hj
  exact h.setMask hj hph ((phase_unkwn _ b).trans hph)

theorem Kept.postFinish (h : Kept s) (hj : j ∈ s.live) (pdone perr : Bool) :
    Kept (s.modJob j (·.postFinish pdone perr)) := by
  obtain ⟨ph, hph⟩ := h.phase hj
  by_cases hd : (s.jobs j).jStatus.mask.done = true
  · have hf : ph = .finished := by
      simpa [Mask.isFinish, hd] using (phase_reads hph).isFinish
    subst hf
    simpa only [Mbd.modJob, JData.postFinish, if_pos hd] using h.setMask hj hph (phase_post hph _ _)
  · simpa only [Mbd.modJob, JData.postFinish, if_neg hd, Mbd.setJob_self] using h

theorem Kept.updJgrpCountByJStatus (h : Kept s) (node : NodeRef) (old new : Option Mask) :
    Kept (updJgrpCountByJStatus node old new s) :=
  h.quiet (j := 0) ((Quiet.refl _ 0 s).setNodes _)

theorem Kept.arrayRequeue1 (h : Kept s) (hj : j ∈ s.live) (now : Int) (req : RequeueReq) :
    Kept (arrayRequeue1 C now req s j) ∧ (arrayRequeue1 C now req s j).live = s.live := by
  obtain ⟨ph, hph⟩ := h.phase hj
  have hfinish : (s.jobs j).jStatus.mask.done ∨ (s.jobs j).jStatus.mask.exit → ph = .finished := by
    rw [← Bool.or_eq_true]
    intro hf
    simpa using (phase_reads hph).isFinish.symm.trans hf
  -- a requeued job pends, so its status may be written again without the counters
  have hr : ph = .finished →
      let s1 := (OpenLava.handleRequeueJob C now j s).modJob j fun jp => { jp with startTime := 0, endTime := 0 }
      Kept s1 ∧ s1.live = s.live ∧ (s1.jobs j).phase = some .pending := by
    rintro rfl
    refine ⟨(h.handleRequeueJob hj hph now).modJob _ ⟨rfl, rfl, rfl, fun _ => rfl, rfl, rfl⟩, handleRequeueJob_live now, ?_⟩
    rw [modJob_job, JData.phase]
    rcases handleRequeueJob_status (C := C) (s := s) (j := j) now with hm | hm <;> simp only [hm] <;> rfl
  unfold OpenLava.arrayRequeue1
  dsimp only
  split_ifs with hf hsusp hs
  · obtain ⟨hk, hl, hp⟩ := hr (hfinish (hf.imp And.left And.left))
    exact ⟨((hk.updJgrpCountByJStatus _ _ _).setMask (hl ▸ hj) hp rfl).modJob _ ⟨rfl, rfl, rfl, fun _ => rfl, rfl, rfl⟩, hl⟩
  · obtain ⟨hk, hl, hp⟩ := hr (hfinish (hf.imp And.left And.left))
    exact ⟨hk.setMask (hl ▸ hj) hp rfl, hl⟩
  · exact ⟨h.modJob _ ⟨rfl, rfl, rfl, fun _ => rfl, rfl, rfl⟩, rfl⟩
  · exact ⟨h, rfl⟩

theorem Kept.arrayRequeue (h : Kept s) (now : Int) (req : RequeueReq) (node : Option NodeRef) (elems : List JobRef)
    (hlive : ∀ j ∈ elems, j ∈ s.live) : Kept (arrayRequeue C now req node elems s) := by
  unfold OpenLava.arrayRequeue
  dsimp only
  split_ifs
  · exact h
  · clear * - h hlive
    induction elems generalizing s with
    | nil => exact h
    | cons j elems ih =>
      obtain ⟨hk, hl⟩ := h.arrayRequeue1 (C := C) (hlive j (by simp)) now req
      exact ih hk fun i hi => by rw [hl]; exact hlive i (by simp [hi])

theorem Kept.leave (h : Kept s) (hf : (s.jobs j).phase = some .finished) : Kept { s with live := s.live.erase j } where
  replay := h.replay
  fit i hi := h.fit i (Finset.mem_of_mem_erase hi)
  books := by
    refine h.books.leave (j := j) ?_
    rw [entries, entryOf_eq hf]
    exact entryAt_finished_zero _ _

theorem Kept.removeJob (h : Kept s) (hf : (s.jobs j).phase = some .finished) : Kept (removeJob j s) := by
  unfold OpenLava.removeJob
  dsimp only
  have hl := h.leave hf
  set s0 : Mbd := { s with live := s.live.erase j }
  have hq : Quiet (s0.jobs j).phase j s0 (OpenLava.updJgrpCountByJStatus (s.jobs j).jgrpNode
      (some (s.jobs j).jStatus.mask) none (OpenLava.offJobList j .FJL s0)) :=
    ((Quiet.refl _ j s0).offJobList j .FJL).setNodes _
  split
  · split_ifs
    · exact hl.quiet (hq.setNodes _)
    · exact hl.quiet hq
  · exact hl.quiet hq
  · exact hl.quiet hq

/-- The record of an array is no job: it may change freely. -/
theorem Kept.setDead (h : Kept s) (ha : a ∉ s.live) (ho : Only a s s') : Kept s' := by
  have hs : ∀ i ∈ s.live, s'.jobs i = s.jobs i := fun i hi => ho.other i (by rintro rfl; exact ha hi)
  have hfit : ∀ i ∈ s'.live, (s'.jobs i).Fit := fun i hi => by
    rw [hs i (ho.live ▸ hi)]
    exact h.fit i (ho.live ▸ hi)
  refine ⟨ho.replay.trans h.replay, hfit, ?_⟩
  have hb := ho.toSameBooks.books h.books
  have he : ∀ i ∈ s'.live, entries s' i = entries s i := fun i hi => by
    rw [entries, entries, hs i (ho.live ▸ hi)]
  refine hb.congr (fun i hi => ⟨(hfit i hi).sound, ?_⟩) fun i hi => ?_ <;> rw [he i hi]
  · exact hb.placed i hi
  · exact ⟨rfl, rfl, rfl, rfl, rfl⟩

/-- A record with the slots of the array's record, pending without hosts. -/
structure ElementOf (jarray jp : JData) : Prop where
  qPtr : jp.qPtr = jarray.qPtr
  uPtr : jp.uPtr = jarray.uPtr
  hPtr : jp.hPtr = []
  max : jp.maxNumProcessors = jarray.maxNumProcessors
  phase : jp.phase = some .pending
  reserve : jp.jStatus.reserve = false

theorem ElementOf.fit (h : ElementOf jarray jp) : jp.Fit :=
  ⟨by rw [h.phase]; rfl, fun hr => by simp [h.reserve] at hr⟩

/-- The elements in `P` are linked as pending, but not yet on the books. -/
structure KeptArray (jarray : JData) (P : Finset JobRef) (s : Mbd) : Prop where
  replay : s.replay = false
  subset : P ⊆ s.live
  fit : ∀ i ∈ s.live, i ∉ P → (s.jobs i).Fit
  element : ∀ i ∈ P, ElementOf jarray (s.jobs i)
  books : Books (fun i => if i ∈ P then entryAt jarray .finished false else entries s i) s

theorem newElement_only (jarray : JData) (e : JobRef × Int) :
    Only e.1 { s.setJob e.1 { jarray with jobId := e.2 } with live := insert e.1 s.live } (newElement C jarray s e) := by
  unfold newElement
  split_ifs
  · exact ((Only.refl e.1 _).inPendJobList C _ _).modJob _
  · exact (Only.refl e.1 _).inPendJobList C _ _

theorem newElement_element (hm : jarray.jStatus = { mask := .PEND }) (hh : jarray.hPtr = [])
    (e : JobRef × Int) : ElementOf jarray ((newElement C jarray s e).jobs e.1) := by
  unfold newElement
  split_ifs
  · simp only [modJob_job, inPendJobList_jobs, setJob_job]
    exact ⟨rfl, rfl, hh, rfl, rfl, rfl⟩
  · simp only [modJob_job, inPendJobList_jobs, setJob_job]
    refine ⟨rfl, rfl, hh, rfl, ?_, ?_⟩ <;> simp only [JData.phase, hm]
    rfl

theorem KeptArray.newElement (h : KeptArray jarray P s) (hm : jarray.jStatus = { mask := .PEND })
    (hh : jarray.hPtr = []) (he : e.1 ∉ s.live) : KeptArray jarray (insert e.1 P) (newElement C jarray s e) ∧
    (OpenLava.newElement C jarray s e).live = insert e.1 s.live := by
  have ho := newElement_only (C := C) (s := s) jarray e
  have hoth : ∀ i, i ≠ e.1 → (OpenLava.newElement C jarray s e).jobs i = s.jobs i := fun i hi =>
    (ho.other i hi).trans (setJob_other s e.1 _ i hi)
  have hl : (OpenLava.newElement C jarray s e).live = insert e.1 s.live := ho.live
  refine ⟨⟨ho.replay.trans h.replay, ?_, fun i hi hP => ?_, fun i hi => ?_, ?_⟩, hl⟩
  · rw [hl]
    exact Finset.insert_subset_insert e.1 h.subset
  · obtain ⟨hne, hiP⟩ := not_or.mp (fun hor => hP (Finset.mem_insert.mpr hor))
    rw [hoth i hne]
    exact h.fit i (Finset.mem_of_mem_insert_of_ne (hl ▸ hi) hne) hiP
  · by_cases hie : i = e.1
    · rw [hie]
      exact newElement_element hm hh e
    · rw [hoth i hie]
      exact h.element i (Finset.mem_of_mem_insert_of_ne hi hie)
  · have hs : SameBooks { s with live := insert e.1 s.live }
        { s.setJob e.1 { jarray with jobId := e.2 } with live := insert e.1 s.live } := .of_eq rfl rfl rfl rfl
    have hb := (hs.trans ho.toSameBooks).books (h.books.enter he (entryAt_finished_zero jarray false)
      (by simp [Entry.Placed, entryAt, hh]))
    convert hb using 1
    funext i
    by_cases hie : i = e.1
    · simp [hie]
    · simp [hie, entries, hoth i hie]

theorem KeptArray.elements (hm : jarray.jStatus = { mask := .PEND }) (hh : jarray.hPtr = [])
    (elems : List (JobRef × Int)) (h : KeptArray jarray P s) (hn : ∀ e ∈ elems, e.1 ∉ s.live)
    (hnd : (elems.map Prod.fst).Nodup) :
    KeptArray jarray (P ∪ (elems.map Prod.fst).toFinset) (elems.foldl (OpenLava.newElement C jarray) s) := by
  induction elems generalizing s P with
  | nil => simpa using h
  | cons e elems ih =>
    obtain ⟨hk, hl⟩ := h.newElement (C := C) hm hh (hn e (by simp))
    rw [map_cons, nodup_cons] at hnd
    have := ih hk (fun e' he' => ?_) hnd.2
    · simpa [Finset.insert_union, Finset.union_insert] using this
    · rw [hl, Finset.mem_insert, not_or]
      refine ⟨fun heq => hnd.1 ?_, hn e' (by simp [he'])⟩
      rw [← heq]
      exact mem_map_of_mem he'

theorem KeptArray.post (h : KeptArray jarray P s) (hP : P.Nonempty) :
    Kept (OpenLava.post jarray (pendPosting (jarray.maxNumProcessors * P.card)) s) := by
  obtain ⟨j, hj⟩ := hP
  have hmax : 0 ≤ jarray.maxNumProcessors := by simp [JData.maxNumProcessors]
  have hr : Realises jarray (pendPosting (jarray.maxNumProcessors * P.card))
      (jarray.maxNumProcessors * P.card) fun _ => 0 := by
    refine ⟨fun c => ?_, .inr ⟨rfl, fun _ => rfl⟩, fun _ => by simp, rfl⟩
    cases c <;> simp [pendPosting, tally]
  have hfit : ∀ i ∈ s.live, (s.jobs i).Fit := fun i hi => by
    by_cases hiP : i ∈ P
    · exact (h.element i hiP).fit
    · exact h.fit i hi hiP
  have hz := entryAt_finished_zero jarray false
  have hs : ((entryAt jarray .finished false).add (jarray.maxNumProcessors * P.card) fun _ => 0).Sound :=
    ⟨by simpa [Entry.add, hz.1] using Int.mul_nonneg hmax (by omega), fun c => by simp [Entry.add, hz.2 c],
      by simp [Entry.add, hz.2]⟩
  have hb := h.books.post (j := j) (h.subset hj) (by simpa [hj] using entryAt_at jarray .finished false) hr
    (by simpa [hj] using hs)
  refine ⟨by simpa using h.replay, by simpa using hfit, ?_⟩
  -- first everything is booked on one element, then each takes its share
  refine hb.spread (q := jarray.qPtr) (u := jarray.uPtr) (x := jarray.maxNumProcessors) (by simpa using h.subset) hj
    (fun i hi => ?_) (fun i hi hiP => ?_) ?_ (fun i hi hne => ?_) fun i hi => ?_
  · refine ⟨by simpa [entries] using (hfit i (by simpa using hi)).sound, ?_⟩
    by_cases hiP : i ∈ P
    · simp [Entry.Placed, entries, entryOf, entryAt, (h.element i hiP).hPtr]
    · simpa [hiP, entries, Entry.Placed] using h.books.placed i (by simpa using hi)
  · have hne : i ≠ j := by rintro rfl; exact hiP hj
    simp [hne, hiP, entries]
  · have ha : ((entryAt jarray .finished false).add (jarray.maxNumProcessors * P.card) fun _ => 0).Same
        (OpenLava.post jarray (pendPosting (jarray.maxNumProcessors * P.card)) s)
        (.pending jarray.qPtr jarray.uPtr (0 + jarray.maxNumProcessors * P.card)) :=
      Entry.same_pending fun c => by simp [Entry.add, hz.2 c]
    simpa [hj, mul_comm] using ha
  · simpa [hne, hi] using hz
  · obtain ⟨hq, hu, hh, hm, hph, hr⟩ := h.element i hi
    have hs : (entryAt (s.jobs i) .pending false).Same
        (OpenLava.post jarray (pendPosting (jarray.maxNumProcessors * P.card)) s)
        (.pending (s.jobs i).qPtr (s.jobs i).uPtr (s.jobs i).maxNumProcessors) :=
      Entry.same_pending (entryAt_free (.inl ⟨rfl, rfl⟩))
    rw [hq, hu, hm] at hs
    rwa [entries, post_jobs, entryOf_eq hph, hr]

theorem Kept.handleNewJobArray (h : Kept s) (ha : a ∉ s.live)
    (hn : ∀ e ∈ elems, e.1 ∉ s.live) (hnd : (elems.map Prod.fst).Nodup) (hne : elems ≠ []) (jobId : Int) (u : URef)
    (bill : JobBill) : Kept (handleNewJobArray C a (initJData jobId u bill) elems s) := by
  unfold OpenLava.handleNewJobArray
  dsimp only
  have ho : Only a s (OpenLava.putOntoTree a .ARRAY (s.setJob a (initJData jobId u bill))) :=
    ((Only.refl a s).modJob fun _ => initJData jobId u bill).putOntoTree .ARRAY
  have hk := h.setDead ha ho
  set s1 := OpenLava.putOntoTree a .ARRAY (s.setJob a (initJData jobId u bill)) with hs1
  have hj : s1.jobs a = { initJData jobId u bill with jgrpNode := [a] } := by
    rw [hs1, putOntoTree_job, setJob_job]
  have he : KeptArray (s1.jobs a) ∅ s1 :=
    ⟨hk.replay, by simp, fun i hi _ => hk.fit i hi, by simp, by simpa using hk.books⟩
  have hele := he.elements (C := C) (by rw [hj]; rfl) (by rw [hj]; rfl) elems
    (fun e he => by rw [ho.live]; exact hn e he) hnd
  rw [Finset.empty_union] at hele
  have hc : ((elems.map Prod.fst).toFinset.card : Int) = elems.length := by
    rw [toFinset_card_of_nodup hnd, length_map]
  have hpost := hele.post (by simpa [toFinset_nonempty_iff] using hne)
  rw [hc] at hpost
  rw [hele.replay]
  exact hpost.quiet (j := a) (((Quiet.refl _ a _).setNodes _).setNodes _)

/-- The statuses of `updSwitchJob`: PEND without `JOB_STAT_UNKWN`, RUN not waiting in a chunk. -/
def Switchable (m : Mask) : Bool :=
  match m.phase with
  | some .pending => !m.unkwn
  | some .running => !m.wait
  | some .ssusp | some .ususp => true
  | some .finished | none => false

theorem switchPostings_realise (hph : jp.phase = some ph) (hsw : Switchable jp.jStatus.mask) (q q' : QRef) :
    ∃ off on, switchPostings jp jp.maxNumProcessors = some (off, on) ∧
      Realises (jp.inQueue q) off (pendBy (jp.inQueue q) .finished false - pendBy (jp.inQueue q) ph false)
        (fun c => heldBy .finished false c - heldBy ph false c) ∧
      Realises (jp.inQueue q') on (pendBy (jp.inQueue q') ph false - pendBy (jp.inQueue q') .finished false)
        (fun c => heldBy ph false c - heldBy .finished false c) := by
  have hm : jp.jStatus.mask.phase = some ph := hph
  have hr := phase_reads hm
  simp only [Switchable, hm] at hsw
  have hpend : jp.jStatus.mask = PEND ∨ jp.jStatus.mask = PSUSP ↔ ph = .pending := by
    constructor
    · rintro (h | h) <;> rw [h] at hm <;> exact (Option.some.inj hm).symm
    · rintro rfl
      obtain ⟨p, u, hf⟩ := phase_form hm
      obtain rfl : u = false := by simpa [hf] using hsw
      cases p
      · exact .inr hf
      · exact .inl hf
  cases ph <;> simp at hsw
  all_goals
    simp [switchPostings, hpend, hr.known_RUN, hr.known_SSUSP, hr.known_USUSP, hsw]
    refine ⟨realises_shift (fun c => ?_) ?_, realises_shift (fun c => ?_) ?_⟩
  all_goals first
    | cases c <;> simp [heldBy, pendBy, tally, hostTally, pendPosting, JData.numHostPtr, JData.maxNumProcessors,
        JData.inQueue, entryAt, Entry.amount]
    | simp only [pendPosting, Option.some.injEq, reduceCtorEq, false_and, true_and, or_false, false_or, funext_iff]
      intro c
      cases c <;> rfl

/-- The record of a job that asks for `n` processors. -/
def JData.asking (jp : JData) (n : Nat) : JData :=
  { jp with jobBill := { jp.jobBill with maxNumProcessors := n } }

theorem updResCounters_asking (j : JobRef) (jp : JData) (n : Nat) (new : JStatus) (hn : new.mask.isFinish = false)
    (s : Mbd) : updResCounters j (jp.asking n) new s = updResCounters j jp new s := by
  have hr : updResCountersRow (jp.asking n).numHostPtr (jp.asking n).maxNumProcessors (jp.asking n).jStatus new =
      updResCountersRow jp.numHostPtr jp.maxNumProcessors jp.jStatus new := by
    unfold updResCountersRow
    simp only [hn, Bool.false_eq_true, and_false, if_false]
    rfl
  unfold updResCounters
  rw [hr]
  rfl

/-- The two halves of a switch; the job may ask for other processors than before. -/
theorem switchPostings_asking (hph : jp.phase = some ph) (hsw : Switchable jp.jStatus.mask) (n : Nat) (q q' : QRef) :
    ∃ off on, switchPostings jp n = some (off, on) ∧ Realises ((jp.asking n).inQueue q)
    off (pendBy ((jp.asking n).inQueue q) .finished false - pendBy ((jp.asking n).inQueue q) ph false)
    (fun c => heldBy .finished false c - heldBy ph false c) ∧ Realises (jp.inQueue q')
    on (pendBy (jp.inQueue q') ph false - pendBy (jp.inQueue q') .finished false)
    (fun c => heldBy ph false c - heldBy .finished false c) := by
  have hph' : (jp.asking n).phase = some ph := hph
  have hsw' : Switchable (jp.asking n).jStatus.mask := hsw
  obtain ⟨off, on1, h1, ho, -⟩ := switchPostings_realise hph' hsw' q q'
  obtain ⟨off2, on, h2, -, hon⟩ := switchPostings_realise hph hsw q q'
  refine ⟨off, on, ?_, ho, hon⟩
  have h1' : switchPostings (jp.asking n) n = some (off, on1) := h1
  unfold switchPostings at h1' h2 ⊢
  dsimp only [JData.asking, JData.numHostPtr] at h1' h2 ⊢
  split_ifs at h1' h2 ⊢ <;> simp_all

theorem KeptBut.postInQueues (qtp : QRef)
    (h : KeptBut j (entryAt (((s.jobs j).asking n).inQueue qfp) ph false) s) (hph : (s.jobs j).phase = some ph)
    (hsw : Switchable (s.jobs j).jStatus.mask) (hp : switchPostings (s.jobs j) n = some (off, on)) :
    KeptBut j (entryAt ((s.jobs j).inQueue qtp) ph false) (postInQueue j qtp on (postInQueue j qfp off s)) := by
  obtain ⟨off', on', hp', ho, hon⟩ := switchPostings_asking hph hsw n qfp qtp
  obtain ⟨rfl, rfl⟩ : off' = off ∧ on' = on := by simpa [hp] using hp'.symm
  have hrep : s.replay = false := h.replay
  have hl := ((h.only ((Only.refl j s).modJob (·.inQueue qfp))).move ho (entryAt_sound (by simp))).rezero
    ((s.jobs j).inQueue qtp) false (.inr rfl)
  have hr := (hl.only ((Only.refl j _).modJob (·.inQueue qtp))).move hon (entryAt_sound (by simp))
  simp only [postInQueue, Mbd.modJob_replay, hrep, modJob_job, post_replay, post_jobs, Bool.false_eq_true,
    if_false]
  exact hr

theorem postInQueue_jobs (q : QRef) (p : Posting) : (postInQueue j q p s).jobs = (s.modJob j (·.inQueue q)).jobs := by
  unfold postInQueue
  dsimp only
  split_ifs <;> simp

theorem postInQueue_live (q : QRef) (p : Posting) : (postInQueue j q p s).live = s.live := by
  unfold postInQueue
  dsimp only
  split_ifs <;> simp

theorem Mbd.modJob_undo (s : Mbd) (j : JobRef) (f g : JData → JData) (h : g (f (s.jobs j)) = s.jobs j) :
    (s.modJob j f).modJob j g = s := by
  simp [Mbd.modJob, h]

theorem postInQueues_job (qfp qtp : QRef) (off on : Posting) :
    (postInQueue j qtp on (postInQueue j qfp off s)).jobs j = (s.jobs j).inQueue qtp := by
  rw [postInQueue_jobs, modJob_job, postInQueue_jobs, modJob_job]
  rfl

theorem Kept.postInQueues (qtp : QRef) (h : Kept (s.modJob j (·.inQueue qfp))) (hj : j ∈ s.live)
    (hph : (s.jobs j).phase = some ph) (hr : (s.jobs j).jStatus.reserve = false) (hsw : Switchable (s.jobs j).jStatus.mask)
    (hp : switchPostings (s.jobs j) (s.jobs j).maxNumProcessors = some (off, on)) :
    Kept (postInQueue j qtp on (postInQueue j qfp off s)) := by
  have hb := h.butAt (j := j) hj (show ((s.modJob j (·.inQueue qfp)).jobs j).phase = some ph by
    rw [modJob_job]; exact hph)
  rw [modJob_job, show ((s.jobs j).inQueue qfp).jStatus.reserve = false from hr] at hb
  have ho := hb.only ((Only.refl j _).modJob fun _ => s.jobs j)
  rw [Mbd.modJob_undo s j _ _ rfl] at ho
  have hpos := KeptBut.postInQueues (n := (s.jobs j).jobBill.maxNumProcessors) qtp ho hph hsw hp
  exact hpos.closeAt ((s.jobs j).inQueue qtp) (postInQueues_job qfp qtp off on) hph hr rfl rfl rfl (fun _ => rfl) (by simp)

theorem dropInQueues_job (qfp qtp : QRef) :
    ((OpenLava.dropReserve j (s.modJob j (·.inQueue qfp))).modJob j (·.inQueue qtp)).jobs j =
      ((s.jobs j).withReserve false).inQueue qtp := by
  rw [modJob_job, dropReserve_jobs, modJob_job, modJob_job]
  rfl

/-- Reserved slots are given back in the old queue and taken in the new one. -/
theorem Kept.switchReserved (qtp : QRef) (h : Kept (s.modJob j (·.inQueue qfp))) (hj : j ∈ s.live)
    (hsw : Switchable (s.jobs j).jStatus.mask) (hr : (s.jobs j).jStatus.reserve = true) : ∃ off on s₁ s₂, s₁ =
    (OpenLava.dropReserve j (s.modJob j (·.inQueue qfp))).modJob j (·.inQueue qtp) ∧ s₁.jobs j =
    ((s.jobs j).withReserve false).inQueue qtp ∧ switchPostings (s₁.jobs j) (s₁.jobs j).maxNumProcessors =
    some (off, on) ∧ s₂ = postInQueue j qtp on (postInQueue j qfp off s₁) ∧ Kept s₂ ∧ j ∈ s₂.live ∧ s₂.jobs j =
    ((s.jobs j).withReserve false).inQueue qtp ∧ OpenLava.updSwitchJob j qfp qtp (s.jobs j).maxNumProcessors s =
    OpenLava.takeReserve j s₂ := by
  obtain ⟨ph, hph⟩ := h.phase (j := j) hj
  rw [modJob_job] at hph
  set s₁ := (OpenLava.dropReserve j (s.modJob j (·.inQueue qfp))).modJob j (·.inQueue qtp) with hs1
  have hjob : s₁.jobs j = ((s.jobs j).withReserve false).inQueue qtp := dropInQueues_job qfp qtp
  have hkept : Kept (s₁.modJob j (·.inQueue qfp)) := by
    refine (h.dropReserve hj).quiet (j := j) ⟨((Only.refl j _).modJob _).modJob _, ?_⟩
    simp only [modJob_job, hjob, dropReserve_jobs]
    exact ⟨rfl, rfl, rfl, fun _ => rfl, rfl, rfl⟩
  have hph1 : (s₁.jobs j).phase = some ph := by rw [hjob]; exact hph
  have hsw1 : Switchable (s₁.jobs j).jStatus.mask := by rw [hjob]; exact hsw
  have hj1 : j ∈ s₁.live := by simpa [hs1] using hj
  obtain ⟨off, on, hp, -, -⟩ := switchPostings_realise hph1 hsw1 qfp qtp
  have hmax : (s₁.jobs j).maxNumProcessors = (s.jobs j).maxNumProcessors := by rw [hjob]; rfl
  refine ⟨off, on, s₁, _, rfl, hjob, hp, rfl, hkept.postInQueues qtp hj1 hph1 (by rw [hjob]; rfl) hsw1 hp,
    by rwa [postInQueue_live, postInQueue_live], ?_, ?_⟩
  · rw [postInQueues_job, hjob]
    rfl
  · unfold OpenLava.updSwitchJob
    simp only [hr, if_true]
    rw [← hs1, ← hmax, hp]

theorem Kept.updSwitchJob (h : Kept (s.modJob j (·.inQueue qfp))) (hj : j ∈ s.live)
    (hsw : Switchable (s.jobs j).jStatus.mask) : Kept (updSwitchJob j qfp qtp (s.jobs j).maxNumProcessors s) := by
  obtain ⟨ph, hph⟩ := h.phase (j := j) hj
  have hfit := h.fit j hj
  rw [modJob_job] at hph hfit
  replace hph : (s.jobs j).phase = some ph := hph
  cases hr : (s.jobs j).jStatus.reserve with
  | false =>
    obtain ⟨off, on, hp, -, -⟩ := switchPostings_realise hph hsw qfp qtp
    unfold OpenLava.updSwitchJob
    simp only [hr, Bool.false_eq_true, if_false]
    rw [hp]
    exact h.postInQueues qtp hj hph hr hsw hp
  | true =>
    obtain ⟨off, on, s1, s2, -, -, -, -, hk2, hj2, hjob2, heq⟩ := h.switchReserved qtp hj hsw hr
    rw [heq]
    refine hk2.takeReserve hj2 ?_
    rw [hjob2]
    exact hfit.reserve hr

/-- A pending job is counted for the default limit that `acceptJob` writes. -/
def DefaultLimitOk (s : Mbd) (j : JobRef) (qtp : QRef) : Prop :=
  (s.jobs j).jobBill.useDefProclimit = true → (s.jobs j).phase = some .pending →
    (s.queues qtp).defaultProcessors = (s.jobs j).jobBill.maxNumProcessors
  deriving Decidable

def SwitchOk (s : Mbd) (j : JobRef) (qtp : QRef) : SwitchVerdict → Prop
  | .refusedEarly => True
  | .refusedLate => (s.jobs j).jStatus.mask.isFinish ∨ DefaultLimitOk s j qtp
  | .accepted => (s.jobs j).jStatus.mask.isFinish ∨ DefaultLimitOk s j qtp ∧ Switchable (s.jobs j).jStatus.mask

instance (s : Mbd) (j : JobRef) (qtp : QRef) : (verdict : SwitchVerdict) → Decidable (SwitchOk s j qtp verdict)
  | .refusedEarly => inferInstanceAs (Decidable True)
  | .refusedLate | .accepted => inferInstanceAs (Decidable (_ ∨ _))

theorem DefaultLimitOk.same (h : DefaultLimitOk s j qtp) :
    SameEntry (s.jobs j).phase (s.jobs j) ((s.jobs j).useDefaultProcessors (s.queues qtp).defaultProcessors) := by
  unfold JData.useDefaultProcessors
  split_ifs with hd
  · refine ⟨rfl, rfl, rfl, fun hp => ?_, rfl, rfl⟩
    simp [JData.maxNumProcessors, h hd hp]
  · exact .refl _ _

theorem jobInQueueEnd_same (ph : Option Phase) (hf : (s.jobs j).jStatus.mask.isFinish = false) (q : QRef) :
    Only j s (jobInQueueEnd C j q s) ∧ SameEntry ph ((s.jobs j).inQueue q) ((jobInQueueEnd C j q s).jobs j) := by
  unfold jobInQueueEnd
  simp only [hf, Bool.false_eq_true, if_false]
  set s1 := (OpenLava.offJobList j (if (s.jobs j).jStatus.mask.isPend then PJLorMJL j s else .SJL) s).modJob j fun job =>
    { job with qPtr := q, jobBill := { job.jobBill with queue := q } } with hs1
  have ho : Only j s s1 := ((Only.refl j s).offJobList j _).modJob _
  have hj : SameEntry ph ((s.jobs j).inQueue q) (s1.jobs j) := by
    rw [hs1, modJob_job]
    exact ⟨rfl, rfl, rfl, fun _ => rfl, rfl, rfl⟩
  have hq : Quiet ph j s1
      (if (s.jobs j).jStatus.mask.isPend then inPendOrMigList C j 0 0 s1 else OpenLava.inStartJobList j s1) := by
    split_ifs
    · exact (Quiet.refl ph j s1).inPendOrMigList C 0 0
    · exact (Quiet.refl ph j s1).inStartJobList j
  exact ⟨ho.trans hq.toOnly, hj.trans hq.job⟩

theorem Kept.releaseForSwitch (h : Kept s) (hj : j ∈ s.live) :
    ∃ s₁, (if (s.jobs j).jStatus.mask.isPend ∧ (s.jobs j).jStatus.reserve then
        (OpenLava.freeReserveSlots j s).modJob j fun jp => { jp with reserveTime := 0 } else s) = s₁ ∧
      Kept s₁ ∧ j ∈ s₁.live ∧ (s₁.jobs j).qPtr = (s.jobs j).qPtr ∧
      (s₁.jobs j).jStatus.mask = (s.jobs j).jStatus.mask := by
  split_ifs with hr
  · obtain ⟨ph, hph⟩ := h.phase hj
    have hp : ph = .pending := by simpa [(phase_reads hph).isPend] using hr.1
    refine ⟨_, rfl, (h.freeReserveSlots hj fun _ => by rw [hph, hp]).modJob _ ⟨rfl, rfl, rfl, fun _ => rfl, rfl, rfl⟩, by simpa using hj, ?_⟩
    simp [freeReserveSlots_jobs j s hr.2, JData.withReserve]
  · exact ⟨s, rfl, h, hj, rfl, rfl⟩

theorem Kept.switchAJob (h : Kept s) (hj : j ∈ s.live)
    (hok : SwitchOk s j qtp verdict) : Kept (switchAJob C j qtp verdict s) := by
  unfold OpenLava.switchAJob
  by_cases he : (s.jobs j).jStatus.mask.isFinish ∨ verdict = .refusedEarly
  · rw [if_pos he]
    exact h
  rw [if_neg he]
  obtain ⟨hf, hv⟩ := not_or.mp he
  have hl : DefaultLimitOk s j qtp := by
    cases verdict with
    | refusedEarly => exact absurd rfl hv
    | refusedLate => exact hok.resolve_left hf
    | accepted => exact (hok.resolve_left hf).1
  have h1 := h.modJob (·.useDefaultProcessors (s.queues qtp).defaultProcessors) hl.same
  set s1 := s.modJob j (·.useDefaultProcessors (s.queues qtp).defaultProcessors) with hs1
  have hm1 : (s1.jobs j).jStatus.mask = (s.jobs j).jStatus.mask := by
    rw [hs1, modJob_job]
    exact hl.same.mask
  by_cases hl : verdict = .refusedLate
  · rw [if_pos hl]
    exact h1
  rw [if_neg hl]
  have hsw : Switchable (s.jobs j).jStatus.mask := by
    cases verdict with
    | refusedEarly => exact absurd rfl hv
    | refusedLate => exact absurd rfl hl
    | accepted => exact (hok.resolve_left hf).2
  obtain ⟨s2, hs2, h2, hj2, hq2, hm2⟩ := h1.releaseForSwitch hj
  simp only [hs2]
  obtain ⟨ho, hs⟩ := jobInQueueEnd_same (C := C) (j := j) (s := s2) (s2.jobs j).phase
    (by rw [hm2, hm1]; simpa using hf) qtp
  set s3 := jobInQueueEnd C j qtp s2
  -- with its old queue written back, the record says what the job is on the books for
  have h3 : Kept (s3.modJob j (·.inQueue (s1.jobs j).qPtr)) := by
    refine h2.quiet ⟨ho.modJob _, ?_⟩
    rw [modJob_job]
    exact ⟨hq2.symm, hs.uPtr, hs.hPtr, hs.max, hs.mask, hs.reserve⟩
  have hj3 : j ∈ s3.live := by rw [ho.live]; exact hj2
  have hm3 : Switchable (s3.jobs j).jStatus.mask := by
    rw [hs.mask]
    change Switchable (s2.jobs j).jStatus.mask
    rwa [hm2, hm1]
  exact (h3.updSwitchJob hj3 hm3).modJob _ ⟨rfl, rfl, rfl, fun _ => rfl, rfl, rfl⟩

end OpenLava

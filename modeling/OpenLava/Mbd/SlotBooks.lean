import OpenLava.Mbd.Books
import OpenLava.Mbd.Daemon

/-!
# Jobs on the books

What a job is on the books for follows from its status. While an operation is under way its job may be on the books for
something else than its record says; `KeptBut` names that entry.
-/

namespace OpenLava

open Function Ledger Mask

def heldBy : Phase → Bool → Tally
  | .pending, false => hostTally 0 0 0 0 0
  | .pending, true => hostTally 1 0 0 0 1
  | .running, _ => hostTally 1 1 0 0 0
  | .ssusp, false => hostTally 1 0 1 0 0
  | .ssusp, true => hostTally 1 0 0 0 1
  | .ususp, false => hostTally 1 0 0 1 0
  | .ususp, true => hostTally 1 0 0 0 1
  | .finished, _ => hostTally 0 0 0 0 0

/-- The slots counted in `numPEND`. -/
def pendBy (jp : JData) : Phase → Bool → Int
  | .pending, false => jp.maxNumProcessors
  | .pending, true => jp.maxNumProcessors - jp.numHostPtr
  | _, _ => 0

def entryAt (jp : JData) (ph : Phase) (reserve : Bool) : Entry :=
  { queue := jp.qPtr, user := jp.uPtr, hosts := jp.hPtr, pend := pendBy jp ph reserve,
    held := heldBy ph reserve }

def entryOf (jp : JData) : Entry := entryAt jp (jp.phase.getD .finished) jp.jStatus.reserve

/-- A known phase, and a reservation only where `numRESERVE` counts one. -/
structure JData.Fit (jp : JData) : Prop where
  phase : jp.phase.isSome
  reserve : jp.jStatus.reserve → jp.phase = some .pending ∧ jp.numHostPtr ≤ jp.maxNumProcessors ∨
    jp.phase = some .ssusp ∨ jp.phase = some .ususp

theorem entryOf_eq (h : jp.phase = some ph) : entryOf jp = entryAt jp ph jp.jStatus.reserve := by simp [entryOf, h]

theorem entryAt_at (jp : JData) (ph : Phase) (r : Bool) : (entryAt jp ph r).At jp := ⟨rfl, rfl, rfl⟩

theorem heldBy_nonneg (ph : Phase) (r : Bool) (c : Counter) : 0 ≤ heldBy ph r c := by
  cases ph <;> cases r <;> cases c <;> decide

theorem heldBy_pend (ph : Phase) (r : Bool) : heldBy ph r .numPEND = 0 := by
  cases ph <;> cases r <;> rfl

theorem entryAt_sound {jp : JData} {ph : Phase} {r : Bool}
    (h : ph = .pending → r → jp.numHostPtr ≤ jp.maxNumProcessors) : (entryAt jp ph r).Sound where
  pend_nonneg := by
    have : 0 ≤ jp.maxNumProcessors := by simp [JData.maxNumProcessors]
    cases ph <;> cases r <;> simp_all [entryAt, pendBy]
  held_nonneg := heldBy_nonneg ph r
  held_pend := heldBy_pend ph r

theorem JData.Fit.sound {jp : JData} (h : jp.Fit) : (entryOf jp).Sound := by
  obtain ⟨ph, hph⟩ := Option.isSome_iff_exists.mp h.phase
  rw [entryOf_eq hph]
  refine entryAt_sound fun hp hr => ?_
  rcases h.reserve hr with h | h | h
  · exact h.2
  · simp_all
  · simp_all

theorem entryAt_congr (r : Bool) (hq : jp'.qPtr = jp.qPtr) (hu : jp'.uPtr = jp.uPtr) (hh : jp'.hPtr = jp.hPtr)
    (hm : ph = .pending → jp'.maxNumProcessors = jp.maxNumProcessors) : entryAt jp' ph r = entryAt jp ph r := by
  cases ph <;> cases r <;> simp_all [entryAt, pendBy, JData.numHostPtr]

def entries (s : Mbd) (j : JobRef) : Entry := entryOf (s.jobs j)

/-- Every job is on the books for what its record says. -/
structure Kept (s : Mbd) : Prop where
  replay : s.replay = false
  fit : ∀ j ∈ s.live, (s.jobs j).Fit
  books : Books (entries s) s

/-- The same, but one job is on the books for `e`. -/
structure KeptBut (j : JobRef) (e : Entry) (s : Mbd) : Prop where
  replay : s.replay = false
  live : j ∈ s.live
  fit : ∀ i ∈ s.live, i ≠ j → (s.jobs i).Fit
  books : Books (update (entries s) j e) s

structure Only (j : JobRef) (s s' : Mbd) : Prop extends SameBooks s s' where
  replay : s'.replay = s.replay
  other : ∀ i, i ≠ j → s'.jobs i = s.jobs i

theorem Only.refl (j : JobRef) (s : Mbd) : Only j s s := ⟨.refl s, rfl, fun _ _ => rfl⟩

theorem Only.trans (h : Only j s1 s2) (h' : Only j s2 s3) : Only j s1 s3 :=
  ⟨h.toSameBooks.trans h'.toSameBooks, h'.replay.trans h.replay,
    fun i hi => (h'.other i hi).trans (h.other i hi)⟩

section

theorem Kept.but (h : Kept s) (hj : j ∈ s.live) : KeptBut j (entryOf (s.jobs j)) s where
  replay := h.replay
  live := hj
  fit i hi _ := h.fit i hi
  books := by
    have : update (entries s) j (entryOf (s.jobs j)) = entries s := update_eq_self j _
    rw [this]
    exact h.books

theorem KeptBut.close (h : KeptBut j e s) (he : e = entryOf (s.jobs j)) (hfit : (s.jobs j).Fit) : Kept s where
  replay := h.replay
  fit i hi := by
    by_cases hij : i = j
    · rwa [hij]
    · exact h.fit i hi hij
  books := by
    have : update (entries s) j e = entries s := by rw [he]; exact update_eq_self j _
    rw [← this]
    exact h.books

theorem KeptBut.only (h : KeptBut j e s) (ho : Only j s s') : KeptBut j e s' where
  replay := by rw [ho.replay, h.replay]
  live := by rw [ho.live]; exact h.live
  fit i hi hij := by rw [ho.other i hij]; exact h.fit i (ho.live ▸ hi) hij
  books := by
    have : update (entries s') j e = update (entries s) j e := by
      funext i
      by_cases hij : i = j
      · subst hij; simp
      · simp [hij, entries, ho.other i hij]
    rw [this]
    exact ho.toSameBooks.books h.books

theorem KeptBut.placed (h : KeptBut j e s) : e.Placed s := by simpa using h.books.placed j h.live

theorem KeptBut.replace (h : KeptBut j e s) (hs : e'.Sound) (hp : e'.Placed s) (hsame : e.Same s e') : KeptBut j e' s where
  replay := h.replay
  live := h.live
  fit := h.fit
  books := by simpa using h.books.replace (j := j) hs hp (by simpa using hsame)

theorem KeptBut.move (h : KeptBut j (entryAt jp ph r) s)
    (hr : Realises jp p (pendBy jp ph' r' - pendBy jp ph r) fun c => heldBy ph' r' c - heldBy ph r c)
    (hs : (entryAt jp ph' r').Sound) : KeptBut j (entryAt jp ph' r') (post jp p s) := by
  have ha : (entryAt jp ph r).add (pendBy jp ph' r' - pendBy jp ph r)
      (fun c => heldBy ph' r' c - heldBy ph r c) = entryAt jp ph' r' := by
    simp [Entry.add, entryAt]
  have hb := h.books.post (j := j) h.live (by simpa using entryAt_at jp ph r) hr (by simpa [ha] using hs)
  refine ⟨by simpa using h.replay, by simpa using h.live, fun i hi hij => ?_, ?_⟩
  · simpa using h.fit i (by simpa using hi) hij
  · have he : entries (post jp p s) = entries s := by funext i; simp [entries]
    rw [he]
    simpa [ha] using hb

end

section

variable (h : Only j s s')

include h

theorem Only.modJob (f : JData → JData) : Only j s (s'.modJob j f) :=
  h.trans ⟨.of_eq rfl rfl rfl rfl, rfl, fun _ hi => by simp [Mbd.modJob_jobs, hi]⟩

theorem Only.setLists (lists : ListNo → JobList) (ends : ListNo → QRef → JobEnds) : Only j s { s' with lists, ends } :=
  h.trans ⟨.of_eq rfl rfl rfl rfl, rfl, fun _ _ => rfl⟩

theorem Only.setNodes (nodes : NodeRef → JgTreeNode) : Only j s { s' with nodes } :=
  h.trans ⟨.of_eq rfl rfl rfl rfl, rfl, fun _ _ => rfl⟩

theorem Only.offJobList (i : JobRef) (l : ListNo) : Only j s (offJobList i l s') := h.setLists _ _

theorem Only.inFinishList (i : JobRef) : Only j s (inFinishList i s') := h.setLists _ _

theorem Only.inStartJobList (i : JobRef) : Only j s (inStartJobList i s') := h.setLists _ _

theorem Only.inPendJobList (C : Config) (l : ListNo) (t : Int) : Only j s (inPendJobList C j l t s') :=
  (h.modJob fun job => { job with sigDelRequeue := false }).setLists _ _

theorem Only.updJgrpCountByJStatus (node : NodeRef) (old new : Option Mask) :
    Only j s (updJgrpCountByJStatus node old new s') := h.setNodes _

theorem Only.eachHost (g : HData → HData) (l : List HRef) (hg : ∀ hp, (g hp).remote = hp.remote ∧
    (g hp).count = hp.count ∧ (g hp).clamped = hp.clamped) :
    Only j s { s' with hosts := updateEach (fun _ => g) l s'.hosts } := by
  refine h.trans ⟨?_, rfl, fun _ _ => rfl⟩
  exact { SameBooks.refl s' with
    remote := updateEach_field HData.remote _ (fun _ hp => (hg hp).1) _ _
    host_count := updateEach_field HData.count _ (fun _ hp => (hg hp).2.1) _ _
    host_clamped := updateEach_field HData.clamped _ (fun _ hp => (hg hp).2.2) _ _ }

theorem Only.proxyHRsvJLAddEntry (i : JobRef) (jp : JData) : Only j s (proxyHRsvJLAddEntry i jp s') := by
  refine h.eachHost _ _ fun hp => ?_
  split <;> exact ⟨rfl, rfl, rfl⟩

theorem Only.proxyHRsvJLRemoveEntry (i : JobRef) (jp : JData) : Only j s (proxyHRsvJLRemoveEntry i jp s') := by
  refine h.eachHost _ _ fun hp => ?_
  split <;> exact ⟨rfl, rfl, rfl⟩

theorem Only.addDispJobs (hPtr : List HRef) (d : Int) : Only j s (addDispJobs hPtr d s') :=
  h.eachHost _ _ fun _ => ⟨rfl, rfl, rfl⟩

end

/-- The record may change, but not what a job in this phase owes. -/
structure SameEntry (ph : Option Phase) (jp jp' : JData) : Prop where
  qPtr : jp'.qPtr = jp.qPtr
  uPtr : jp'.uPtr = jp.uPtr
  hPtr : jp'.hPtr = jp.hPtr
  max : ph = some .pending → jp'.maxNumProcessors = jp.maxNumProcessors
  mask : jp'.jStatus.mask = jp.jStatus.mask
  reserve : jp'.jStatus.reserve = jp.jStatus.reserve

theorem SameEntry.refl (ph : Option Phase) (jp : JData) : SameEntry ph jp jp :=
  ⟨rfl, rfl, rfl, fun _ => rfl, rfl, rfl⟩

theorem SameEntry.trans (h : SameEntry ph jp1 jp2) (h' : SameEntry ph jp2 jp3) : SameEntry ph jp1 jp3 :=
  ⟨h'.qPtr.trans h.qPtr, h'.uPtr.trans h.uPtr, h'.hPtr.trans h.hPtr, fun hp => (h'.max hp).trans (h.max hp),
    h'.mask.trans h.mask, h'.reserve.trans h.reserve⟩

theorem SameEntry.phase (h : SameEntry ph jp jp') : jp'.phase = jp.phase := by
  simp [JData.phase, h.mask]

theorem SameEntry.fit (h : SameEntry jp.phase jp jp') (hfit : jp.Fit) : jp'.Fit := by
  refine ⟨by rw [h.phase]; exact hfit.phase, fun hr => ?_⟩
  rw [h.reserve] at hr
  rcases hfit.reserve hr with ⟨hp, hle⟩ | hs
  · left
    rw [h.phase, h.max hp, JData.numHostPtr, h.hPtr]
    exact ⟨hp, hle⟩
  · right
    rwa [h.phase]

theorem SameEntry.entryOf (h : SameEntry jp.phase jp jp') (hfit : jp.Fit) : entryOf jp' = entryOf jp := by
  obtain ⟨ph, hph⟩ := Option.isSome_iff_exists.mp hfit.phase
  rw [entryOf_eq hph, entryOf_eq (h.phase.trans hph), h.reserve]
  exact entryAt_congr _ h.qPtr h.uPtr h.hPtr fun hp => h.max (by rw [hph, hp])

structure Quiet (ph : Option Phase) (j : JobRef) (s s' : Mbd) : Prop extends Only j s s' where
  job : SameEntry ph (s.jobs j) (s'.jobs j)

theorem Quiet.refl (ph : Option Phase) (j : JobRef) (s : Mbd) : Quiet ph j s s := ⟨.refl j s, .refl ph _⟩

section

variable (h : Quiet ph j s s')

include h

theorem Quiet.modJob (hf : SameEntry ph (s'.jobs j) (f (s'.jobs j))) : Quiet ph j s (s'.modJob j f) :=
  ⟨h.toOnly.modJob f, h.job.trans (by simpa using hf)⟩

theorem Quiet.offJobList (i : JobRef) (l : ListNo) : Quiet ph j s (offJobList i l s') :=
  ⟨h.toOnly.offJobList i l, h.job⟩

theorem Quiet.inFinishList (i : JobRef) : Quiet ph j s (inFinishList i s') := ⟨h.toOnly.inFinishList i, h.job⟩

theorem Quiet.inStartJobList (i : JobRef) : Quiet ph j s (inStartJobList i s') := ⟨h.toOnly.inStartJobList i, h.job⟩

theorem Quiet.inPendJobList (C : Config) (l : ListNo) (t : Int) : Quiet ph j s (inPendJobList C j l t s') := by
  refine ⟨h.toOnly.inPendJobList C l t, h.job.trans ?_⟩
  rw [inPendJobList_jobs, modJob_job]
  exact ⟨rfl, rfl, rfl, fun _ => rfl, rfl, rfl⟩

theorem Quiet.inPendOrMigList (C : Config) (t t' : Int) : Quiet ph j s (inPendOrMigList C j t t' s') := by
  unfold OpenLava.inPendOrMigList
  split_ifs
  · exact (h.inPendJobList C _ _).modJob ⟨rfl, rfl, rfl, fun _ => rfl, rfl, rfl⟩
  · exact h.inPendJobList C _ _
  · exact h.inPendJobList C _ _

theorem Quiet.setNodes (nodes : NodeRef → JgTreeNode) : Quiet ph j s { s' with nodes } :=
  ⟨h.toOnly.setNodes nodes, h.job⟩

end

theorem Kept.quiet (h : Kept s) (hq : Quiet (s.jobs j).phase j s s') : Kept s' := by
  have hs : ∀ i, SameEntry (s.jobs i).phase (s.jobs i) (s'.jobs i) := fun i => by
    by_cases hij : i = j
    · rw [hij]
      exact hq.job
    · rw [hq.other i hij]
      exact .refl _ _
  refine ⟨by rw [hq.replay, h.replay], fun i hi => (hs i).fit (h.fit i (hq.live ▸ hi)), ?_⟩
  refine (hq.toSameBooks.books h.books).congr (fun i hi => ?_) fun i hi => ?_
  · refine ⟨((hs i).fit (h.fit i (hq.live ▸ hi))).sound, ?_⟩
    rw [entries, (hs i).entryOf (h.fit i (hq.live ▸ hi))]
    exact (hq.toSameBooks.books h.books).placed i hi
  · rw [entries, entries, (hs i).entryOf (h.fit i (hq.live ▸ hi))]
    exact ⟨rfl, rfl, rfl, rfl, rfl⟩

theorem Kept.relisted (h : Kept s) (hr : Relisted s s') : Kept s' := by
  obtain ⟨lists, ends, rfl⟩ := hr
  exact h.quiet (j := 0) ⟨(Only.refl 0 s).setLists lists ends, .refl _ _⟩

end OpenLava

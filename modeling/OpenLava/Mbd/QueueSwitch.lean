import OpenLava.Mbd.Restore
import OpenLava.Mbd.Touches

/-!
# What a queue switch counts

`updSwitchJob` takes a job off the books of its old queue and puts it onto those of the new one. The counters of the
user and of the hosts end where they were, but a host on which nothing is counted in between forgets that it is used
exclusively.
-/

namespace OpenLava

open Ledger Mask

section

variable {n : Nat}

theorem switchable_isFinish (hph : m.phase = some ph) (hsw : Switchable m) : m.isFinish = false := by
  have hr := phase_reads hph
  rw [hr.isFinish]
  cases ph <;> simp [Switchable, hph] at hsw ⊢

/-- A switch takes the job off the books for its old record and puts it on for the new one. -/
theorem KeptBut.updSwitchJob
    (h : KeptBut j (entryAt (((s.jobs j).asking n).inQueue qfp) ph (s.jobs j).jStatus.reserve) s)
    (hph : (s.jobs j).phase = some ph) (hsw : Switchable (s.jobs j).jStatus.mask) (hq : (s.jobs j).qPtr = qtp)
    (hfit : (s.jobs j).jStatus.reserve = true → (s.jobs j).CanReserve) :
    KeptBut j (entryAt (s.jobs j) ph (s.jobs j).jStatus.reserve) (updSwitchJob j qfp qtp n s) ∧
      (updSwitchJob j qfp qtp n s).jobs j = s.jobs j := by
  have hself : ∀ jp : JData, jp.qPtr = qtp → jp.inQueue qtp = jp := by
    rintro jp rfl
    rfl
  obtain ⟨off, on, hp, -, -⟩ := switchPostings_asking hph hsw n qfp qtp
  cases hr : (s.jobs j).jStatus.reserve with
  | false =>
    rw [hr] at h
    have hpos := h.postInQueues qtp hph hsw hp
    rw [hself _ hq] at hpos
    unfold OpenLava.updSwitchJob
    simp only [hr, Bool.false_eq_true, if_false, hp]
    refine ⟨hpos, ?_⟩
    rw [postInQueues_job]
    exact hself _ hq
  | true =>
    have hc := hfit hr
    have hres : Reservable ph := by
      rcases hc with ⟨hp, -⟩ | hp | hp <;> rw [hph] at hp <;> cases hp
      exacts [.inl rfl, .inr (.inl rfl), .inr (.inr rfl)]
    have hf := switchable_isFinish hph hsw
    -- the reservation is given back in the old queue
    generalize hs1 : (dropReserve j (s.modJob j (·.inQueue qfp))).modJob j (·.inQueue qtp) = s1
    have hj1 : s1.jobs j = (s.jobs j).withReserve false := by
      rw [← hs1, dropInQueues_job]
      exact hself ((s.jobs j).withReserve false) hq
    have hkept1 : KeptBut j (entryAt (((s1.jobs j).asking n).inQueue qfp) ph false) s1 := by
      have hd := (h.only ((Only.refl j s).modJob (·.inQueue qfp))).updResCounters hph false (.inr hres)
        (entryAt_sound (by simp))
      have ha := updResCounters_asking j ((s.jobs j).inQueue qfp) n { (s.jobs j).jStatus with reserve := false } hf
        (s.modJob j (·.inQueue qfp))
      rw [hj1, ← hs1, dropReserve, modJob_job]
      refine KeptBut.only ?_ (((Only.refl j _).modJob (·.withReserve false)).modJob (·.inQueue qtp))
      exact ha ▸ hd
    have hp1 : switchPostings (s1.jobs j) n = some (off, on) := by
      rw [hj1]
      exact hp
    have hkept2 := hkept1.postInQueues qtp (by rw [hj1]; exact hph) (by rw [hj1]; exact hsw) hp1
    generalize hs2 : postInQueue j qtp on (postInQueue j qfp off s1) = s2 at hkept2
    have hj2 : s2.jobs j = (s.jobs j).withReserve false := by
      rw [← hs2, postInQueues_job, hj1]
      exact hself ((s.jobs j).withReserve false) hq
    -- and taken again in the new one
    have hswi : OpenLava.updSwitchJob j qfp qtp n s = takeReserve j s2 := by
      unfold OpenLava.updSwitchJob
      simp only [hr, if_true, hs1, hp1, hs2]
    have hsou : (entryAt ((s.jobs j).withReserve false) ph true).Sound := entryAt_sound fun hpend _ => by
      rcases hc with ⟨-, hle⟩ | hs | hs
      · exact hle
      · rw [hph, hpend] at hs
        cases hs
      · rw [hph, hpend] at hs
        cases hs
    rw [hswi]
    constructor
    · rw [hj1, hself ((s.jobs j).withReserve false) hq] at hkept2
      have ht := hkept2.updResCounters hph true (.inr hres) hsou
      rw [takeReserve, hj2]
      exact ht.only ((Only.refl j _).modJob (·.withReserve true))
    · rw [takeReserve_jobs, modJob_job, hj2]
      have hb : ((s.jobs j).withReserve false).withReserve true = (s.jobs j).withReserve true := rfl
      rw [hb, JData.withReserve, ← hr]

end

section

variable {j : JobRef} {s s' : Mbd} {qfp qtp : QRef}

theorem Around.postInQueue (h : Around J s s') (hj : j ∈ J) (q : QRef) (p : Posting) :
    Around J s (postInQueue j q p s') := by
  unfold OpenLava.postInQueue
  dsimp only
  split
  · exact h.modJob hj _
  · exact (h.modJob hj _).post _ p

/-- The middle of `updSwitchJob`, where the job has no reservation. -/
def switchCounts (j : JobRef) (qfp qtp : QRef) (n : Int) (s : Mbd) : Mbd :=
  match switchPostings (s.jobs j) n with
  | none => s
  | some (off, on) => postInQueue j qtp on (postInQueue j qfp off s)

theorem updSwitchJob_eq (j : JobRef) (qfp qtp : QRef) (n : Int) (s : Mbd) : updSwitchJob j qfp qtp n s =
    if (s.jobs j).jStatus.reserve then
      takeReserve j (switchCounts j qfp qtp n ((dropReserve j (s.modJob j (·.inQueue qfp))).modJob j (·.inQueue qtp)))
    else switchCounts j qfp qtp n s := by
  unfold updSwitchJob switchCounts
  cases hr : (s.jobs j).jStatus.reserve with
  | false => rfl
  | true => rfl

theorem Around.switchCounts (h : Around J s s') (hj : j ∈ J) (qfp qtp : QRef) (n : Int) :
    Around J s (switchCounts j qfp qtp n s') := by
  unfold OpenLava.switchCounts
  split
  · exact h
  · exact (h.postInQueue hj qfp _).postInQueue hj qtp _

theorem Around.updSwitchJob (h : Around J s s') (hj : j ∈ J) (qfp qtp : QRef) (n : Int) :
    Around J s (updSwitchJob j qfp qtp n s') := by
  rw [updSwitchJob_eq]
  split
  · exact ((((h.modJob hj _).dropReserve hj).modJob hj _).switchCounts hj qfp qtp n).takeReserve hj
  · exact h.switchCounts hj qfp qtp n

/-- The queues outside `Q` stay, and hosts outside `H` as exclusive as they are; none becomes so. -/
structure Within (Q : Set QRef) (H : List HRef) (s s' : Mbd) : Prop where
  queues : ∀ q, q ∉ Q → s'.queues q = s.queues q
  exclusive : ∀ x, (s'.hosts x).exclusive = (s.hosts x).exclusive ∨ x ∈ H ∧ (s'.hosts x).exclusive = false

theorem Within.refl (Q : Set QRef) (H : List HRef) (s : Mbd) : Within Q H s s := ⟨fun _ _ => rfl, fun _ => .inl rfl⟩

theorem Within.trans (h : Within Q H s s') (h' : Within Q H s' s'') : Within Q H s s'' where
  queues q hq := (h'.queues q hq).trans (h.queues q hq)
  exclusive x := by
    rcases h'.exclusive x with h2 | h2
    · rw [h2]
      exact h.exclusive x
    · exact .inr h2

theorem account_exclusive (jp : JData) (d : Tally) (hp : HData) :
    (HData.account jp d hp).exclusive = hp.exclusive ∨ (HData.account jp d hp).exclusive = false := by
  unfold HData.account
  dsimp only
  split
  · exact .inl rfl
  · dsimp only
    split
    · exact .inr rfl
    · exact .inl rfl

/-- Counting on the hosts of a list may only end their exclusive use. -/
theorem updateEach_exclusive (g : HData → HData) (hg : ∀ hp, (g hp).exclusive = hp.exclusive ∨ (g hp).exclusive = false)
    (l : List HRef) (hosts : HRef → HData) (x : HRef) : (updateEach (fun _ => g) l hosts x).exclusive =
    (hosts x).exclusive ∨ x ∈ l ∧ (updateEach (fun _ => g) l hosts x).exclusive = false := by
  by_cases hx : x ∈ l
  · rw [updateEach_apply]
    have hi : ∀ n hp, (g^[n] hp).exclusive = hp.exclusive ∨ (g^[n] hp).exclusive = false := by
      intro n
      induction n with
      | zero => exact fun hp => .inl rfl
      | succ n ih =>
        intro hp
        rw [Function.iterate_succ_apply']
        rcases hg (g^[n] hp) with h | h
        · rw [h]
          exact ih hp
        · exact .inr h
    exact (hi _ _).imp_right fun h => ⟨hx, h⟩
  · exact .inl (by rw [updateEach_apply_of_notMem _ _ _ _ hx])

theorem Within.post (h : Within Q H s s') (hq : jp.qPtr ∈ Q) (hh : jp.hPtr = H) (p : Posting) :
    Within Q H s (post jp p s') := by
  refine h.trans ⟨fun q hne => ?_, fun x => ?_⟩
  · have hpost : (OpenLava.post jp p s').queues = (updQaccount jp p.acct s').queues := by
      unfold OpenLava.post
      split <;> rfl
    have ho : q ≠ jp.qPtr := fun he => hne (he ▸ hq)
    rw [hpost, updQaccount]
    exact Function.update_of_ne ho _ _
  · unfold OpenLava.post
    split
    · exact .inl rfl
    · rw [← hh]
      exact updateEach_exclusive _ (account_exclusive jp _) _ _ x

theorem Within.updResCounters (h : Within Q H s s') (hq : jp.qPtr ∈ Q) (hh : jp.hPtr = H) (n : JStatus) :
    Within Q H s (updResCounters j jp n s') := by
  unfold OpenLava.updResCounters
  split
  · exact h
  · split
    · exact h
    · exact h.post hq hh _
    · refine (h.post hq hh _).trans ⟨fun _ _ => rfl, fun x => .inl (updateEach_field HData.exclusive _ (fun _ hp => ?_) _ _ x)⟩
      split <;> rfl
    · refine (h.post hq hh _).trans ⟨fun _ _ => rfl, fun x => .inl (updateEach_field HData.exclusive _ (fun _ hp => ?_) _ _ x)⟩
      split <;> rfl

theorem Within.modJob (h : Within Q H s s') (f : JData → JData) : Within Q H s (s'.modJob j f) :=
  h.trans ⟨fun _ _ => rfl, fun _ => .inl rfl⟩

theorem Within.postInQueue (h : Within Q H s s') (hq : q ∈ Q) (hh : (s'.jobs j).hPtr = H) (p : Posting) :
    Within Q H s (postInQueue j q p s') ∧ ((postInQueue j q p s').jobs j).hPtr = H := by
  unfold OpenLava.postInQueue
  dsimp only
  split
  · exact ⟨h.modJob _, by rw [modJob_job]; exact hh⟩
  · refine ⟨(h.modJob _).post ?_ ?_ p, ?_⟩
    · rw [modJob_job]
      exact hq
    · rw [modJob_job]
      exact hh
    · rw [post_jobs, modJob_job]
      exact hh

theorem Within.switchCounts (h : Within {qfp, qtp} H s s') (hh : (s'.jobs j).hPtr = H) (hq : (s'.jobs j).qPtr = qtp)
    (n : Int) : Within {qfp, qtp} H s (switchCounts j qfp qtp n s') ∧ ((switchCounts j qfp qtp n s').jobs j).hPtr = H ∧
      ((switchCounts j qfp qtp n s').jobs j).qPtr = qtp := by
  unfold OpenLava.switchCounts
  split
  · exact ⟨h, hh, hq⟩
  · obtain ⟨ho, hhoff⟩ := h.postInQueue (Set.mem_insert qfp {qtp}) hh _
    obtain ⟨hon, hh⟩ := ho.postInQueue (Set.mem_insert_of_mem qfp rfl) hhoff _
    refine ⟨hon, hh, ?_⟩
    rw [postInQueue_jobs, modJob_job]
    rfl

/-- A switch writes the records of two queues, and may end the exclusive use of hosts. -/
theorem updSwitchJob_within (hq : (s.jobs j).qPtr = qtp) (n : Int) :
    Within {qfp, qtp} (s.jobs j).hPtr s (updSwitchJob j qfp qtp n s) := by
  rw [updSwitchJob_eq]
  split
  · generalize hs1 : (dropReserve j (s.modJob j (·.inQueue qfp))).modJob j (·.inQueue qtp) = s1
    have hd : Within {qfp, qtp} (s.jobs j).hPtr s s1 := by
      rw [← hs1, dropReserve, modJob_job]
      have hf : ((s.jobs j).inQueue qfp).qPtr ∈ ({qfp, qtp} : Set QRef) := Set.mem_insert qfp {qtp}
      exact ((((Within.refl _ _ s).modJob _).updResCounters hf rfl _).modJob _).modJob _
    have hj : s1.jobs j = ((s.jobs j).withReserve false).inQueue qtp := by
      rw [← hs1, modJob_job, dropReserve_jobs, modJob_job, modJob_job]
      rfl
    obtain ⟨h2, hh2, hq2⟩ := hd.switchCounts (by rw [hj]; rfl) (by rw [hj]; rfl) n
    rw [takeReserve]
    exact (h2.updResCounters (by rw [hq2]; exact Set.mem_insert_of_mem qfp rfl) hh2 _).modJob _
  · exact ((Within.refl _ _ s).switchCounts rfl hq n).1

end

section

variable {j : JobRef} {s s' : Mbd} {n : Nat} {qfp qtp : QRef}

/-- Where one job is on the books for something else, accounts change by that. -/
theorem Kept.countsChange (h : Kept s) (h' : Kept s') (ha : Around {j} s s') (hj : j ∈ s.live) :
    (∀ a, (s'.queues a.1).count a.2 = (s.queues a.1).count a.2 +
      (owesQueue (entryOf (s'.jobs j)) a - owesQueue (entryOf (s.jobs j)) a)) ∧
    (∀ a, (s'.users a.1).count a.2 = (s.users a.1).count a.2 +
      (owesUser s (entryOf (s'.jobs j)) a - owesUser s (entryOf (s.jobs j)) a)) ∧
    (∀ a, (s'.hosts a.1).count a.2 = (s.hosts a.1).count a.2 +
      (owesHost s (entryOf (s'.jobs j)) a - owesHost s (entryOf (s.jobs j)) a)) ∧
    (∀ a, acctCount ((s'.queues a.1).uAcct a.2.1) a.2.2 = acctCount ((s.queues a.1).uAcct a.2.1) a.2.2 +
      (owesUAcct s (entryOf (s'.jobs j)) a - owesUAcct s (entryOf (s.jobs j)) a)) ∧
    ∀ a, acctCount ((s'.queues a.1).hAcct a.2.1) a.2.2 = acctCount ((s.queues a.1).hAcct a.2.1) a.2.2 +
      (owesHAcct s (entryOf (s'.jobs j)) a - owesHAcct s (entryOf (s.jobs j)) a) := by
  have hc : ∀ {α : Type} {book book' : α → Int} {owes : Entry → α → Int},
      Balanced s.live (fun i => owes (entries s i)) book → Balanced s'.live (fun i => owes (entries s' i)) book' →
      ∀ a, book' a = book a + (owes (entryOf (s'.jobs j)) a - owes (entryOf (s.jobs j)) a) := by
    intro α book book' owes hb hb' a
    rw [ha.live] at hb'
    have hu : ∀ i ∈ s.live, owes (entries s' i) a =
        Function.update (fun i => owes (entries s i)) j (owes (entryOf (s'.jobs j))) i a := by
      intro i _
      by_cases hi : i = j
      · rw [hi, Function.update_self]
        rfl
      · rw [Function.update_of_ne hi, entries, ha.other i hi]
        rfl
    rw [hb a, hb' a, total_congr hu, total_update hj]
    rfl
  have hb := h.books
  have hb' := h'.books
  refine ⟨hc hb.queue hb'.queue, ?_, ?_, ?_, ?_⟩
  · have hu := hb'.user
    rw [ha.owesUser] at hu
    exact hc hb.user hu
  · have hh := hb'.host
    rw [ha.owesHost] at hh
    exact hc hb.host hh
  · have hu := hb'.uAcct
    rw [ha.owesUAcct] at hu
    exact hc hb.uAcct hu
  · have hh := hb'.hAcct
    rw [ha.owesHAcct] at hh
    exact hc hb.hAcct hh

/-- The record a job had before it was switched. -/
def JData.before (jp : JData) (qfp : QRef) (n : Nat) : JData := (jp.asking n).inQueue qfp

theorem switchPostings_finished (hph : jp.phase = some .finished) (n : Int) : switchPostings jp n = none := by
  have hr := phase_reads (m := jp.jStatus.mask) hph
  have hpend : ¬ (jp.jStatus.mask = PEND ∨ jp.jStatus.mask = PSUSP) := by
    have hm : jp.jStatus.mask.phase = some .finished := hph
    rintro (h | h) <;> rw [h] at hm <;> cases hm
  simp [switchPostings, hpend, hr.known_RUN, hr.known_SSUSP, hr.known_USUSP]

theorem updSwitchJob_kept (h : Kept (s.modJob j (·.before qfp n))) (hj : j ∈ s.live) (hq : (s.jobs j).qPtr = qtp)
    (hst : Switchable (s.jobs j).jStatus.mask ∨ (s.jobs j).phase = some .finished)
    (hfit : (s.jobs j).jStatus.reserve = true → (s.jobs j).CanReserve) :
    Kept (updSwitchJob j qfp qtp n s) ∧ (updSwitchJob j qfp qtp n s).jobs j = s.jobs j := by
  obtain ⟨ph, hph⟩ := h.phase (j := j) hj
  have hb := h.butAt (j := j) hj hph
  rw [modJob_job] at hb hph
  replace hph : (s.jobs j).phase = some ph := hph
  have hback : (s.modJob j (·.before qfp n)).modJob j (fun _ => s.jobs j) = s := Mbd.modJob_undo s j _ _ rfl
  have ho := hb.only ((Only.refl j _).modJob fun _ => s.jobs j)
  rw [hback] at ho
  rcases hst with hsw | hf
  · obtain ⟨hd, hj⟩ := KeptBut.updSwitchJob ho hph hsw hq hfit
    refine ⟨hd.closeAt (s.jobs j) hj hph rfl rfl rfl rfl (fun _ => rfl) fun hr => ?_, hj⟩
    rcases hfit hr with ⟨hp, hle⟩ | hp | hp <;> rw [hph] at hp <;> cases hp
    exacts [.inl ⟨rfl, hle⟩, .inr (.inl rfl), .inr (.inr rfl)]
  · obtain rfl : ph = .finished := Option.some.inj (hph.symm.trans hf)
    have hr : (s.jobs j).jStatus.reserve = false := by
      by_contra hr
      rcases hfit (by simpa using hr) with ⟨hp, -⟩ | hp | hp <;> rw [hph] at hp <;> cases hp
    have hs : updSwitchJob j qfp qtp n s = s := by
      rw [updSwitchJob_eq, if_neg (by rw [hr]; exact Bool.false_ne_true), switchCounts, switchPostings_finished hph]
    rw [hs]
    refine ⟨(ho.rezero (s.jobs j) false (.inr rfl)).closeAt (s.jobs j) rfl hph hr rfl rfl rfl (fun _ => rfl) ?_, rfl⟩
    exact fun hr => absurd hr Bool.false_ne_true

/-- A switch moves the job's amounts to the new queue; the job's user and groups change by the difference of its amounts,
so only in pending slots and with the number of processors. -/
structure Switched (j : JobRef) (qfp qtp : QRef) (n : Nat) (s s' : Mbd) : Prop where
  jobs : s'.jobs = s.jobs
  live : s'.live = s.live
  lists : s'.lists = s.lists ∧ s'.ends = s.ends
  nodes : s'.nodes = s.nodes
  otherQueues : ∀ q, q ≠ qfp → q ≠ qtp → s'.queues q = s.queues q
  queues : ∀ q c, (s'.queues q).count c = (s.queues q).count c -
    (if q = qfp then (entryOf ((s.jobs j).before qfp n)).amount c else 0) +
    (if q = qtp then (entryOf (s.jobs j)).amount c else 0)
  sums : n = (s.jobs j).jobBill.maxNumProcessors → qfp ≠ qtp →
    (∀ c, (s'.queues qfp).count c + (s'.queues qtp).count c = (s.queues qfp).count c + (s.queues qtp).count c) ∧
    (∀ u c, acctCount ((s'.queues qfp).uAcct u) c + acctCount ((s'.queues qtp).uAcct u) c =
      acctCount ((s.queues qfp).uAcct u) c + acctCount ((s.queues qtp).uAcct u) c) ∧
    ∀ x c, acctCount ((s'.queues qfp).hAcct x) c + acctCount ((s'.queues qtp).hAcct x) c =
      acctCount ((s.queues qfp).hAcct x) c + acctCount ((s.queues qtp).hAcct x) c
  users : ∀ u c, (s'.users u).count c = (s.users u).count c +
    (((s.jobs j).uPtr :: (s.users (s.jobs j).uPtr).gPtr).count u : Int) *
      ((entryOf (s.jobs j)).amount c - (entryOf ((s.jobs j).before qfp n)).amount c)
  others : ∀ u c, n = (s.jobs j).jobBill.maxNumProcessors ∨ c ≠ .numJobs ∧ c ≠ .numPEND →
    (s'.users u).count c = (s.users u).count c
  hosts : ∀ x c, (s'.hosts x).count c = (s.hosts x).count c
  exclusive : ∀ x, (s'.hosts x).exclusive = (s.hosts x).exclusive

theorem before_amount (h : n = jp.jobBill.maxNumProcessors ∨ c ≠ .numJobs ∧ c ≠ .numPEND) :
    (entryOf (jp.before qfp n)).amount c = (entryOf jp).amount c := by
  rcases h with rfl | ⟨hj, hpend⟩
  · rfl
  · simp only [Entry.amount, hj, hpend, or_self, if_false]
    rfl

end

def runsOnTwo : List Op :=
  [.newJob 1 false 0 1 0 { queue := 0, maxNumProcessors := 2 }, .allocHosts 0 2 [(0, 2)], .jStatusChange 2 0 .RUN 0]

def aloneOnHost : Mbd :=
  let s := (Run.run (step {}) runsOnTwo .blank).modJob 0 (·.inQueue 1)
  { s with hosts := fun x => { s.hosts x with exclusive := x = 0 } }

end OpenLava

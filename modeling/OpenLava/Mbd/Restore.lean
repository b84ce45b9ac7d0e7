import OpenLava.Mbd.SlotRuns

/-!
# Reservations that are given back

The counters of a daemon that keeps its books follow from the records of its jobs. `numDispJobs` of a host and
`numUsable` of a queue are kept outside of the books and followed by hand.
-/

namespace OpenLava

open Ledger (updateEach)

structure SameCounts (s s' : Mbd) : Prop where
  queue : ∀ q c, (s'.queues q).count c = (s.queues q).count c
  user : ∀ u c, (s'.users u).count c = (s.users u).count c
  host : ∀ h c, (s'.hosts h).count c = (s.hosts h).count c
  uAcct : ∀ q u c, acctCount ((s'.queues q).uAcct u) c = acctCount ((s.queues q).uAcct u) c
  hAcct : ∀ q h c, acctCount ((s'.queues q).hAcct h) c = acctCount ((s.queues q).hAcct h) c

/-- Only these jobs change; users, groups and hosts stay what they are. -/
structure Around (J : Set JobRef) (s s' : Mbd) : Prop extends SamePlaces s s' where
  live : s'.live = s.live
  other : ∀ i, i ∉ J → s'.jobs i = s.jobs i

section

theorem Around.refl (J : Set JobRef) (s : Mbd) : Around J s s :=
  ⟨⟨fun _ => rfl, fun _ => rfl, fun _ => rfl⟩, rfl, fun _ _ => rfl⟩

theorem Around.trans (h : Around J s s') (h' : Around J s' s'') : Around J s s'' where
  gPtr u := (h'.gPtr u).trans (h.gPtr u)
  ancestors u := (h'.ancestors u).trans (h.ancestors u)
  remote x := (h'.remote x).trans (h.remote x)
  live := h'.live.trans h.live
  other i hi := (h'.other i hi).trans (h.other i hi)

theorem Around.mono {J' : Set JobRef} (h : Around J s s') (hJ : J ⊆ J') : Around J' s s' where
  toSamePlaces := h.toSamePlaces
  live := h.live
  other i hi := h.other i fun hmem => hi (hJ hmem)

theorem Only.around (h : Only j s s') (hj : j ∈ J) : Around J s s' where
  toSamePlaces := h.toSamePlaces
  live := h.live
  other i hi := h.other i fun he => hi (he ▸ hj)

theorem Around.post (h : Around J s s') (jp : JData) (p : Posting) : Around J s (post jp p s') :=
  h.trans ⟨post_samePlaces jp p s', post_live jp p s', fun i _ => by rw [post_jobs]⟩

theorem Around.only (h : Around J s s') (hj : j ∈ J) (ho : Only j s' s'') : Around J s s'' := h.trans (ho.around hj)

theorem Around.updResCounters (h : Around J s s') (hj : j ∈ J) (jp : JData) (newStatus : JStatus) :
    Around J s (updResCounters j jp newStatus s') := by
  unfold OpenLava.updResCounters
  split
  · exact h
  · split
    · exact h
    · exact h.post jp _
    · exact (h.post jp _).only hj ((Only.refl j _).proxyHRsvJLAddEntry j jp)
    · exact (h.post jp _).only hj ((Only.refl j _).proxyHRsvJLRemoveEntry j jp)

theorem Around.modJob (h : Around J s s') (hj : j ∈ J) (f : JData → JData) : Around J s (s'.modJob j f) :=
  h.only hj ((Only.refl j s').modJob f)

theorem Around.allocHosts (h : Around J s s') (hj : j ∈ J) (n : Int) (cands : List (HRef × Nat)) :
    Around J s (allocHosts j n cands s') := by
  unfold OpenLava.allocHosts
  split
  · exact h
  · exact h.only hj (((Only.refl j s').addDispJobs _ 1).modJob _)

theorem Around.takeReserve (h : Around J s s') (hj : j ∈ J) : Around J s (takeReserve j s') := by
  unfold OpenLava.takeReserve
  exact (h.updResCounters hj _ _).modJob hj _

theorem Around.dropReserve (h : Around J s s') (hj : j ∈ J) : Around J s (dropReserve j s') := by
  unfold OpenLava.dropReserve
  exact (h.updResCounters hj _ _).modJob hj _

theorem Around.reserveSlots (h : Around J s s') (hj : j ∈ J) (C : Config) (now : Int) :
    Around J s (reserveSlots C now j s') := by
  unfold OpenLava.reserveSlots
  split
  · exact h
  · have ht := (h.modJob hj fun jp =>
      { jp with reserveTime := if jp.reserveTime = 0 then now else jp.reserveTime }).takeReserve hj
    dsimp only
    split
    · exact ht
    · exact ht.trans ⟨⟨fun _ => rfl, fun _ => rfl, fun _ => rfl⟩, rfl, fun _ _ => rfl⟩

theorem Around.freeReserveSlots (h : Around J s s') (hj : j ∈ J) : Around J s (freeReserveSlots j s') := by
  unfold OpenLava.freeReserveSlots
  split
  · exact h
  · exact (h.dropReserve hj).only hj (((Only.refl j _).addDispJobs _ (-1)).modJob _)

end

section

/-- Two states that keep their books have the same counts, if their jobs owe the same. -/
theorem Kept.sameCounts (h : Kept s) (h' : Kept s') (hpla : SamePlaces s s') (hl : s'.live = s.live)
    (hs : ∀ j ∈ s.live, (entryOf (s.jobs j)).Same s (entryOf (s'.jobs j))) : SameCounts s s' := by
  have hc : ∀ {α : Type} {book book' : α → Int} {owes : Entry → α → Int},
      Ledger.Balanced s.live (fun j => owes (entries s j)) book →
      Ledger.Balanced s'.live (fun j => owes (entries s' j)) book' →
      (∀ j ∈ s.live, owes (entryOf (s.jobs j)) = owes (entryOf (s'.jobs j))) → ∀ a, book' a = book a := by
    intro α book book' owes hb hb' ho a
    rw [hl] at hb'
    rw [hb a, hb' a]
    exact Ledger.total_congr fun j hj => congrFun (ho j hj).symm a
  have hb := h.books
  have hb' := h'.books
  constructor
  · exact fun q c => hc hb.queue hb'.queue (fun j hj => (hs j hj).queue) (q, c)
  · have hu := hb'.user
    rw [hpla.owesUser] at hu
    exact fun u c => hc hb.user hu (fun j hj => (hs j hj).user) (u, c)
  · have hh := hb'.host
    rw [hpla.owesHost] at hh
    exact fun x c => hc hb.host hh (fun j hj => (hs j hj).host) (x, c)
  · have hu := hb'.uAcct
    rw [hpla.owesUAcct] at hu
    exact fun q u c => hc hb.uAcct hu (fun j hj => (hs j hj).uAcct) (q, u, c)
  · have hh := hb'.hAcct
    rw [hpla.owesHAcct] at hh
    exact fun q x c => hc hb.hAcct hh (fun j hj => (hs j hj).hAcct) (q, x, c)

end

section

variable (jp : JData) (j : JobRef) (s : Mbd)

theorem post_numUsable (p : Posting) (q : QRef) : ((post jp p s).queues q).numUsable = (s.queues q).numUsable := by
  have hpost : (post jp p s).queues = (updQaccount jp p.acct s).queues := by
    unfold post
    split <;> rfl
  rw [hpost, updQaccount]
  by_cases hq : q = jp.qPtr
  · subst hq
    simp [QData.account]
  · simp [hq]

theorem post_numDispJobs (p : Posting) (h : HRef) : ((post jp p s).hosts h).numDispJobs = (s.hosts h).numDispJobs := by
  refine post_hostField jp p s HData.numDispJobs (fun d hp => ?_) h
  unfold HData.account
  dsimp only
  split <;> rfl

theorem updResCounters_numUsable (n : JStatus) (q : QRef) :
    ((updResCounters j jp n s).queues q).numUsable = (s.queues q).numUsable := by
  unfold updResCounters
  split
  · rfl
  · split
    · rfl
    all_goals exact post_numUsable jp s _ q

theorem updResCounters_numDispJobs (n : JStatus) (h : HRef) :
    ((updResCounters j jp n s).hosts h).numDispJobs = (s.hosts h).numDispJobs := by
  unfold updResCounters
  split
  · rfl
  · split
    · rfl
    · exact post_numDispJobs jp s _ h
    · refine (Ledger.updateEach_field HData.numDispJobs _ (fun _ hp => ?_) _ _ h).trans (post_numDispJobs jp s _ h)
      split <;> rfl
    · refine (Ledger.updateEach_field HData.numDispJobs _ (fun _ hp => ?_) _ _ h).trans (post_numDispJobs jp s _ h)
      split <;> rfl

theorem addDispJobs_numDispJobs (hPtr : List HRef) (d : Int) (h : HRef) :
    ((addDispJobs hPtr d s).hosts h).numDispJobs = (s.hosts h).numDispJobs + hPtr.count h * d := by
  simp only [addDispJobs, Ledger.updateEach_apply]
  induction hPtr.count h generalizing s with
  | zero => simp
  | succ n ih =>
    rw [Function.iterate_succ_apply']
    rw [ih]
    push_cast
    ring

theorem allocHosts_numUsable (n : Int) (cands : List (HRef × Nat)) (q : QRef) :
    ((allocHosts j n cands s).queues q).numUsable = (s.queues q).numUsable := by
  unfold allocHosts
  split <;> rfl

/-- What `reserveSlots` leaves of the record. -/
def JData.reserving (now : Int) (jp : JData) : JData :=
  { jp.withReserve true with reserveTime := if jp.reserveTime = 0 then now else jp.reserveTime }

theorem reserveSlots_job (C : Config) (now : Int) (hr : (s.jobs j).jStatus.reserve = false) :
    (reserveSlots C now j s).jobs j = (s.jobs j).reserving now := by
  unfold reserveSlots
  rw [if_neg (by rw [hr]; exact Bool.false_ne_true)]
  split <;> simp [takeReserve_jobs, JData.reserving, JData.withReserve]

theorem reserveSlots_numUsable (C : Config) (now : Int) (hr : (s.jobs j).jStatus.reserve = false) (q : QRef) :
    ((reserveSlots C now j s).queues q).numUsable = (s.queues q).numUsable -
      if C.hasBackfillPolicy = false ∧ q = (s.jobs j).qPtr then (s.jobs j).numHostPtr else 0 := by
  unfold reserveSlots
  rw [if_neg (by rw [hr]; exact Bool.false_ne_true)]
  generalize hs1 : s.modJob j (fun jp => { jp with reserveTime := if jp.reserveTime = 0 then now else jp.reserveTime }) = s1
  have hkeep : ((takeReserve j s1).queues q).numUsable = (s.queues q).numUsable := by
    refine (updResCounters_numUsable _ j s1 _ q).trans ?_
    rw [← hs1, Mbd.modJob_queues]
  have hj : (takeReserve j s1).jobs j = (s1.jobs j).withReserve true := by
    rw [takeReserve_jobs, modJob_job]
  have hq : ((takeReserve j s1).jobs j).qPtr = (s.jobs j).qPtr := by
    rw [hj, ← hs1, modJob_job]
    rfl
  have hn : ((takeReserve j s1).jobs j).numHostPtr = (s.jobs j).numHostPtr := by
    rw [hj, ← hs1, modJob_job]
    rfl
  cases hb : C.hasBackfillPolicy with
  | true => simpa using hkeep
  | false =>
    simp only [Bool.false_eq_true, if_false, true_and, hq, hn]
    by_cases hq : q = (s.jobs j).qPtr
    · subst hq
      simp [hkeep]
    · simp [hq, hkeep]

theorem reserveSlots_numDispJobs (C : Config) (now : Int) (h : HRef) :
    ((reserveSlots C now j s).hosts h).numDispJobs = (s.hosts h).numDispJobs := by
  unfold reserveSlots
  split
  · rfl
  · split <;> exact updResCounters_numDispJobs _ j _ _ h

theorem freeReserveSlots_numUsable (q : QRef) : ((freeReserveSlots j s).queues q).numUsable = (s.queues q).numUsable := by
  unfold freeReserveSlots
  split
  · rfl
  · exact updResCounters_numUsable _ j s _ q

theorem freeReserveSlots_numDispJobs (hr : (s.jobs j).jStatus.reserve = true) (h : HRef) :
    ((freeReserveSlots j s).hosts h).numDispJobs = (s.hosts h).numDispJobs - (s.jobs j).hPtr.count h := by
  unfold freeReserveSlots
  rw [if_neg (not_not.mpr hr)]
  have hkeep : ((dropReserve j s).hosts h).numDispJobs = (s.hosts h).numDispJobs := updResCounters_numDispJobs _ j s _ h
  have hptr : ((dropReserve j s).jobs j).hPtr = (s.jobs j).hPtr := by
    rw [dropReserve_jobs, modJob_job]
    rfl
  have ha := addDispJobs_numDispJobs (dropReserve j s) (s.jobs j).hPtr (-1) h
  rw [hkeep] at ha
  rw [deallocHosts, hptr]
  refine ha.trans ?_
  ring

end

section

variable {C : Config} {j : JobRef} {s : Mbd} {now n : Int}

/-- `getQUsable` for the queue of the job, with the number it counts. `updHAcct` calls it in `M_STAGE_QUE_CAND` if the
limit of the queue on the last local host of the job is no longer reached. -/
def recount (numUsable : Option Int) (j : JobRef) (s : Mbd) : Mbd :=
  match numUsable with
  | none => s
  | some numUsable =>
    { s with
      queues := Function.update s.queues (s.jobs j).qPtr { s.queues (s.jobs j).qPtr with numUsable } }

/-- A job takes slots and gives them back, with a recount in `updResCounters` each time or none. It is put before the
counters, which do not read `numUsable`. -/
def reserveAndFree (C : Config) (now : Int) (j : JobRef) (numEligProc : Int) (execCandPtr : List (HRef × Nat))
    (taking freeing : Option Int) (s : Mbd) : Mbd :=
  freeReserveSlots j (recount freeing j
    (reserveSlots C now j (recount taking j (allocHosts j numEligProc execCandPtr s))))

theorem recount_jobs (m : Option Int) : (recount m j s).jobs = s.jobs := by cases m <;> rfl

theorem recount_hosts (m : Option Int) : (recount m j s).hosts = s.hosts := by cases m <;> rfl

theorem recount_numUsable (m : Option Int) (q : QRef) : ((recount m j s).queues q).numUsable =
    if q = (s.jobs j).qPtr then m.getD (s.queues q).numUsable else (s.queues q).numUsable := by
  cases m with
  | none => simp [recount]
  | some m => by_cases hq : q = (s.jobs j).qPtr <;> simp [recount, hq]

theorem Around.recount (h : Around J s0 s) (m : Option Int) : Around J s0 (recount m j s) := by
  cases m with
  | none => exact h
  | some m => exact ⟨⟨h.gPtr, h.ancestors, h.remote⟩, h.live, h.other⟩

theorem Kept.recount (h : Kept s) (m : Option Int) : Kept (recount m j s) := by
  cases m with
  | none => exact h
  | some m =>
    refine h.quiet (j := j) ⟨⟨?_, rfl, fun _ _ => rfl⟩, .refl _ _⟩
    -- `numUsable` is no counter
    refine { SameBooks.refl _ with queue_count := ?_, queue_uAcct := ?_, queue_hAcct := ?_, queue_clamped := ?_ } <;>
      intro q <;> dsimp only [OpenLava.recount] <;> rw [Function.update_apply] <;> split_ifs with hq <;> simp [hq]

/-- The hosts of the slots that `allocHosts` allocates. -/
def allocated (numEligProc : Int) (execCandPtr : List (HRef × Nat)) : List HRef :=
  if numEligProc ≤ 0 then [] else execCandPtr.flatMap fun cand => List.replicate cand.2 cand.1

theorem allocHosts_job (n : Int) (cands : List (HRef × Nat)) (hi : (s.jobs j).hPtr = []) :
    (allocHosts j n cands s).jobs j = { s.jobs j with hPtr := allocated n cands } := by
  unfold allocHosts allocated
  split
  · rw [← hi]
  · rw [modJob_job]
    rfl

theorem allocHosts_numDispJobs (h : HRef) :
    ((allocHosts j n cands s).hosts h).numDispJobs = (s.hosts h).numDispJobs + (allocated n cands).count h := by
  unfold allocHosts allocated
  split
  · simp
  · have ha := addDispJobs_numDispJobs s (cands.flatMap fun cand => List.replicate cand.2 cand.1) 1 h
    rw [mul_one] at ha
    exact ha

theorem reserveAndFree_job (hr : (s.jobs j).jStatus.reserve = false) (hi : (s.jobs j).hPtr = []) :
    (reserveAndFree C now j n cands taking freeing s).jobs j =
      { s.jobs j with reserveTime := if (s.jobs j).reserveTime = 0 then now else (s.jobs j).reserveTime } := by
  have h1 := allocHosts_job n cands hi
  have h2 := reserveSlots_job j (recount taking j (allocHosts j n cands s)) C now (by rw [recount_jobs, h1]; exact hr)
  rw [reserveAndFree, freeReserveSlots_jobs j _ (by rw [recount_jobs, h2]; rfl), modJob_job, recount_jobs, h2,
    recount_jobs, h1]
  simp [JData.reserving, JData.withReserve, ← hr, ← hi]

theorem Kept.reserveAndFree (h : Kept s) (hj : j ∈ s.live) (hpend : (s.jobs j).phase = some .pending)
    (hr : (s.jobs j).jStatus.reserve = false) (hi : (s.jobs j).hPtr = [])
    (hl : ∀ cand ∈ cands, (s.hosts cand.1).remote = false)
    (hfit : ((allocated n cands).length : Int) ≤ (s.jobs j).maxNumProcessors) :
    Kept (reserveAndFree C now j n cands taking freeing s) := by
  have h1 := allocHosts_job n cands hi
  have hk1 := (h.allocHosts hj (.inl ⟨hpend, hr⟩) n cands hl).recount (j := j) taking
  have ha1 := ((Around.refl {j} s).allocHosts rfl n cands).recount (j := j) taking
  have hj1 : j ∈ (OpenLava.recount taking j (OpenLava.allocHosts j n cands s)).live := by rwa [ha1.live]
  have hr1 : ((OpenLava.recount taking j (OpenLava.allocHosts j n cands s)).jobs j).jStatus.reserve = false := by
    rw [recount_jobs, h1]
    exact hr
  have hk2 : Kept (OpenLava.reserveSlots C now j (OpenLava.recount taking j (OpenLava.allocHosts j n cands s))) := by
    refine hk1.reserveSlots hj1 now (.inr (.inl ?_))
    rw [recount_jobs, h1]
    exact ⟨hpend, hfit⟩
  refine (hk2.recount (j := j) freeing).freeReserveSlots ?_ fun _ => ?_
  · rw [((ha1.reserveSlots rfl C now).recount freeing).live]
    exact hj
  · rw [recount_jobs, reserveSlots_job j _ C now hr1, recount_jobs, h1]
    exact hpend

end

def oneJob : List Op := [.newJob 1 false 0 1 0 { queue := 0, maxNumProcessors := 3 }]

end OpenLava

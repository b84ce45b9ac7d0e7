import OpenLava.Mbd.Holdings

/-!
# The accounts of the queues

The host accounts of a queue have `numNonPrmptRsv`, for which the queue has no counter: the slots that started jobs of
the queue keep reserved while they are suspended. An account that is created by a reservation begins with zero there.
-/

namespace OpenLava

open Ledger Mask Run

def rsvShare (jp : JData) (a : QRef × HRef) : Int :=
  if jp.qPtr = a.1 ∧ jp.jStatus.reserve = true ∧ jp.jStatus.mask.isStart = true then jp.hPtr.count a.2 else 0

def nonPrmptRsv : Option Acct → Int
  | none => 0
  | some a => a .numNonPrmptRsv

/-- `numNonPrmptRsv` of a host account. -/
def rsvBook (s : Mbd) (a : QRef × HRef) : Int := nonPrmptRsv ((s.queues a.1).hAcct a.2)

variable {C : Config} {s s' : Mbd} {j : JobRef} {jp : JData} {ph : Phase}

theorem rsvShare_unreserved (h : jp.jStatus.reserve = false) : rsvShare jp = 0 := by
  funext a
  simp [rsvShare, h]

theorem rsvShare_unstarted (h : jp.jStatus.mask.isStart = false) : rsvShare jp = 0 := by
  funext a
  simp [rsvShare, h]

theorem nonPrmptRsv_addHost (h : d .numRESERVE = 0 ∨ jp.jStatus.mask.pend = true) (x : Option Acct) :
    nonPrmptRsv (addHost jp d x) = nonPrmptRsv x := by
  have hs : ¬ (d .numRESERVE ≠ 0 ∧ ¬ jp.jStatus.mask.pend = true) := by tauto
  cases x with
  | some foundH => exact if_neg hs
  | none =>
    unfold addHost
    split_ifs <;> rfl

theorem rsvBook_post (h : p.acct .numRESERVE = 0 ∨ jp.jStatus.mask.pend = true) : rsvBook (post jp p s) = rsvBook s := by
  funext a
  unfold rsvBook
  by_cases hq : a.1 = jp.qPtr
  · rw [hq, post_queues_same, QData.account]
    dsimp only
    split_ifs
    · rfl
    · refine updateEach_field nonPrmptRsv _ (fun x acct => ?_) _ _ _
      split_ifs
      · rfl
      · exact nonPrmptRsv_addHost h acct
  · rw [post_queues_other _ hq]

theorem nonPrmptRsv_iterate (hpend : jp.jStatus.mask.pend = false) (hd : d .numRESERVE ≠ 0)
    (ho : ∀ x, addOneAbs x (d .numRESERVE) = x + u) (n : Nat) (x : Option Acct) (hx : x.isSome) :
    nonPrmptRsv ((addHost jp d)^[n] x) = nonPrmptRsv x + n * u := by
  induction n generalizing x with
  | zero => simp
  | succ n ih =>
    obtain ⟨foundH, rfl⟩ := Option.isSome_iff_exists.mp hx
    rw [Function.iterate_succ_apply, ih _ rfl]
    have hs : nonPrmptRsv (addHost jp d (some foundH)) = foundH .numNonPrmptRsv + u := by
      simp [nonPrmptRsv, addHost, hd, hpend, ho]
    rw [hs, nonPrmptRsv]
    push_cast
    ring

theorem rsvBook_post_started (hpend : jp.jStatus.mask.pend = false)
    (hp : p.acct .numRESERVE = jp.numHostPtr * u) (hu : u = -1 ∨ u = 1) (hl : ∀ x ∈ jp.hPtr, (s.hosts x).remote = false)
    (ha : ∀ x ∈ jp.hPtr, ((s.queues jp.qPtr).hAcct x).isSome) (a : QRef × HRef) :
    rsvBook (post jp p s) a = rsvBook s a + if jp.qPtr = a.1 then (jp.hPtr.count a.2 : Int) * u else 0 := by
  unfold rsvBook
  by_cases hq : jp.qPtr = a.1
  · by_cases hx : a.2 ∈ jp.hPtr
    · have hn : 0 < jp.numHostPtr := Int.natCast_pos.mpr (List.length_pos_of_mem hx)
      have ho : ∀ x, addOneAbs x (p.acct .numRESERVE) = x + u := fun x => by
        rw [hp]
        exact addOneAbs_mul x hn (by tauto)
      have hd : p.acct .numRESERVE ≠ 0 := by
        rw [hp]
        exact mul_ne_zero hn.ne' (by rcases hu with rfl | rfl <;> decide)
      rw [if_pos hq, ← hq, post_queues_same, QData.account]
      simp only [hd, false_and, and_false, if_false]
      rw [updHAcct, updateEach_apply]
      simp only [hl a.2 hx, Bool.false_eq_true, if_false]
      exact nonPrmptRsv_iterate hpend hd ho _ _ (ha a.2 hx)
    · rw [if_pos hq, List.count_eq_zero_of_not_mem hx, Nat.cast_zero, zero_mul, add_zero, ← hq, post_queues_same,
        QData.account]
      dsimp only
      split_ifs
      · rfl
      · rw [updHAcct, updateEach_apply_of_notMem _ _ _ _ hx]
  · rw [if_neg hq, add_zero, post_queues_other _ (Ne.symm hq)]

/-- A started job has an account on each of its hosts. -/
theorem Kept.acct_isSome (h : Kept s) (hj : j ∈ s.live) (hph : (s.jobs j).phase = some .ssusp ∨ (s.jobs j).phase = some .ususp)
    (hx : x ∈ (s.jobs j).hPtr) : ((s.queues (s.jobs j).qPtr).hAcct x).isSome := by
  obtain ⟨c, hc, hh⟩ : ∃ c, c ≠ Counter.numJobs ∧ (entryOf (s.jobs j)).held c = 1 := by
    rcases hph with hph | hph <;> rw [entryOf_eq hph] <;> cases (s.jobs j).jStatus.reserve
    · exact ⟨.numSSUSP, by decide, rfl⟩
    · exact ⟨.numRESERVE, by decide, rfl⟩
    · exact ⟨.numUSUSP, by decide, rfl⟩
    · exact ⟨.numRESERVE, by decide, rfl⟩
  have hle := h.books.hAcct.le_book (a := ((s.jobs j).qPtr, x, c)) hj
    fun i hi => owesHAcct_nonneg _ (h.books.sound i hi) _
  have ho : owesHAcct s (entries s j) ((s.jobs j).qPtr, x, c) = (s.jobs j).hPtr.count x := by
    rw [owesHAcct, if_pos ⟨rfl, hc⟩]
    rw [entries, hh, mul_one]
    exact h.localCount_eq hj x
  have hpos : 0 < (s.jobs j).hPtr.count x := List.count_pos_iff.mpr hx
  cases ha : (s.queues (s.jobs j).qPtr).hAcct x with
  | some acct => rfl
  | none =>
    simp only [ha, acctCount] at hle
    omega

theorem rsvBook_updResCounters (hi : ¬ (¬ jp.jStatus.mask.isPend ∧ ¬ jp.jStatus.mask.isStart))
    (hr : updResCountersRow jp.numHostPtr jp.maxNumProcessors jp.jStatus n = some (p, op)) :
    rsvBook (updResCounters j jp n s) = rsvBook (post jp p s) := by
  unfold updResCounters
  rw [if_neg hi, hr]
  cases op <;> rfl

theorem pend_of_pending {m : Mask} (h : m.phase = some .pending) (hm : m.psusp = false) : m.pend = true := by
  have hpend := (phase_reads h).isPend
  simpa [Mask.isPend, hm] using hpend

theorem Kept.rsv_setReserve (h : Kept s) (hj : j ∈ s.live) (hph : (s.jobs j).phase = some ph) (b : Bool)
    (hres : Reservable ph) (hf : (s.jobs j).jStatus.reserve = !b) (hpsu : (s.jobs j).jStatus.mask.psusp = false)
    (a : QRef × HRef) : rsvBook (updResCounters j (s.jobs j) { (s.jobs j).jStatus with reserve := b } s) a -
      rsvShare ((s.jobs j).withReserve b) a = rsvBook s a - rsvShare (s.jobs j) a := by
  have hr := phase_reads (m := (s.jobs j).jStatus.mask) hph
  have hi : ¬ (¬ (s.jobs j).jStatus.mask.isPend ∧ ¬ (s.jobs j).jStatus.mask.isStart) := by
    rcases hres with rfl | rfl | rfl <;> simp [hr.isPend, hr.isStart]
  obtain ⟨p, op, hrow, hreal⟩ := updResCountersRow_realises hph hres b hf
  rw [rsvBook_updResCounters hi hrow]
  rcases hres with rfl | hsusp
  · have hs : (s.jobs j).jStatus.mask.isStart = false := by simp [hr.isStart]
    rw [rsvBook_post (.inr (pend_of_pending hph hpsu)), rsvShare_unstarted hs,
      rsvShare_unstarted (show ((s.jobs j).withReserve b).jStatus.mask.isStart = false from hs)]
  · have hs : (s.jobs j).jStatus.mask.isStart = true := by
      rcases hsusp with rfl | rfl <;> simp [hr.isStart]
    have hpend : (s.jobs j).jStatus.mask.pend = false := by
      have := hr.isPend
      rcases hsusp with rfl | rfl <;> simp_all [Mask.isPend]
    have hn : p.acct .numRESERVE = (s.jobs j).numHostPtr * (if b then 1 else -1) := by
      rw [hreal.acct]
      rcases hsusp with rfl | rfl <;> cases b <;> simp [heldBy, hostTally, tally, JData.numHostPtr]
    rw [rsvBook_post_started hpend hn (by cases b <;> simp) (fun x hx => h.books.placed j hj x hx)
      (fun x hx => h.acct_isSome hj (by rcases hsusp with rfl | rfl <;> simp [hph]) hx) a]
    by_cases hq : (s.jobs j).qPtr = a.1 <;> cases b <;>
      simp [rsvShare, JData.withReserve, hq, hs, hf, sub_eq_add_neg]

/-- `numNonPrmptRsv` as a record of reservations. -/
def nonPrmptRsvs : Holding (QRef × HRef) where
  book := rsvBook
  share _ := rsvShare
  mine _ _ := False
  strict := true
  book_congr hq _ := funext fun a => by rw [rsvBook, rsvBook, hq]
  book_post hp := rsvBook_post (.inl hp)
  share_unreserved _ := rsvShare_unreserved
  share_idle _ _ _ hstart := rsvShare_unstarted hstart
  share_same _ _ _ hq hh hr _ hs := funext fun a => by rw [rsvShare, rsvShare, hq, hh, hr, hs]
  share_mine hmine _ := hmine.elim
  setReserve b h hj hph hres hflip hpsusp _ := h.rsv_setReserve hj hph b hres hflip (hpsusp rfl)

theorem Mbd.Initial.nonPrmptRsvs (h : s.Initial) : Holds OpenLava.nonPrmptRsvs s where
  balanced a := by simp [h.live, OpenLava.nonPrmptRsvs, rsvBook, h.queue_hAcct, nonPrmptRsv]
  unheld := by simp [h.live]

theorem rsv_sum (hr : Holds nonPrmptRsvs s) (q : QRef) (hH : ∀ j ∈ s.live, ∀ x ∈ (s.jobs j).hPtr, x ∈ H) :
    ∑ x ∈ H, nonPrmptRsv ((s.queues q).hAcct x) = ∑ j ∈ s.live with (s.jobs j).qPtr = q ∧
      (s.jobs j).jStatus.reserve = true ∧ (s.jobs j).jStatus.mask.isStart = true, (s.jobs j).numHostPtr := by
  have hb : ∀ x, nonPrmptRsv ((s.queues q).hAcct x) = ∑ j ∈ s.live, rsvShare (s.jobs j) (q, x) :=
    fun x => hr.balanced (q, x)
  rw [Finset.sum_congr rfl fun x _ => hb x, Finset.sum_comm, Finset.sum_filter]
  refine Finset.sum_congr rfl fun j hj => ?_
  simp only [rsvShare]
  split_ifs
  · exact sum_count_hPtr (hH j hj)
  · exact Finset.sum_const_zero

/-- Over every run of jobs whose slots an `int` can count, the accounts of users, groups apart, and of hosts add up to the
queue's counters. -/
theorem account_sums_of_run (C : Config) (s₀ : Mbd) (h₀ : s₀.Initial) (hr : s₀.replay = false) (ops : List Op)
    (hops : Meets (step C) (Bookable C) ops s₀) (hint : Meets (step C) (InInt C) ops s₀) (q : QRef) (U : Finset URef)
    (H : Finset HRef)
    (hU : ∀ j ∈ (run (step C) ops s₀).live, ((run (step C) ops s₀).jobs j).uPtr ∈ U ∧
      ∀ g ∈ ((run (step C) ops s₀).users ((run (step C) ops s₀).jobs j).uPtr).ancestors, g ∉ U)
    (hH : ∀ j ∈ (run (step C) ops s₀).live, ∀ x ∈ ((run (step C) ops s₀).jobs j).hPtr, x ∈ H) : let s := run (step C) ops s₀
    (∀ c ∈ [Counter.numRUN, .numSSUSP, .numUSUSP, .numPEND, .numRESERVE],
        ∑ u ∈ U, acctCount ((s.queues q).uAcct u) c = (s.queues q).count c ∧
          ∀ u ∈ U, 0 ≤ acctCount ((s.queues q).uAcct u) c ∧ acctCount ((s.queues q).uAcct u) c < 2 ^ 31) ∧
      (∀ c ∈ [Counter.numRUN, .numSSUSP, .numUSUSP, .numRESERVE],
        ∑ x ∈ H, acctCount ((s.queues q).hAcct x) c = (s.queues q).count c ∧
          ∀ x ∈ H, 0 ≤ acctCount ((s.queues q).hAcct x) c ∧ acctCount ((s.queues q).hAcct x) c < 2 ^ 31) ∧
      (Meets (step C) PendReserved ops s₀ →
        ∑ x ∈ H, nonPrmptRsv ((s.queues q).hAcct x) = ∑ j ∈ s.live with (s.jobs j).qPtr = q ∧
          (s.jobs j).jStatus.reserve = true ∧ (s.jobs j).jStatus.mask.isStart = true, (s.jobs j).numHostPtr) := by
  intro s
  have hk : Kept s := kept_run h₀ hr ops hops
  have hlt : ∀ c, (s.queues q).count c < 2 ^ 31 := fun c => (hk.queue_inInt (slots_run h₀ ops hint) q c).2
  refine ⟨fun c hc => ?_, fun c hc => ?_, fun hpend => ?_⟩
  · have hs := hk.uAcct_sum q (fun j hj => (hU j hj).1) (fun j hj => (hU j hj).2) (by rintro rfl; simp at hc : c ≠ .numJobs)
    exact ⟨hs, fun u hu => inInt_of_sum (f := fun u => acctCount ((s.queues q).uAcct u) c) (hk.uAcct_nonneg q · c) hs (hlt c) hu⟩
  · have hs := hk.hAcct_sum q hH (by rintro rfl; simp at hc : c ≠ .numJobs) (by rintro rfl; simp at hc)
    exact ⟨hs, fun x hx => inInt_of_sum (f := fun x => acctCount ((s.queues q).hAcct x) c) (hk.hAcct_nonneg q · c) hs (hlt c) hx⟩
  · have hb := hops.and ops s₀ (hpend.imp ops s₀ fun _ _ h (_ : nonPrmptRsvs.strict = true) => h)
    exact rsv_sum (run_invariant Holds.step ops s₀ ⟨h₀.kept hr, h₀.nonPrmptRsvs⟩ hb).2 q hH

theorem account_sums_of_run_reserved :
    let ops : List Op := [.newJob 1 false 0 1 0 { queue := 0, maxNumProcessors := 2 }, .allocHosts 0 2 [(0, 1), (1, 1)],
      .jStatusChange 2 0 .RUN 0, .jStatusChange 3 0 .SSUSP 0, .takeReserve 0, .newJob 4 false 1 2 1 { queue := 0 },
      .allocHosts 1 1 [(1, 1)], .reserveSlots 5 1]
    Meets (step {}) (Bookable {}) ops .blank ∧ Meets (step {}) PendReserved ops .blank ∧
      ∑ x ∈ {0, 1}, nonPrmptRsv (((run (step {}) ops .blank).queues 0).hAcct x) = 2 := by
  intro ops
  have ho : Meets (step {}) (Bookable {}) ops .blank := by decide +kernel
  have hpend : Meets (step {}) PendReserved ops .blank := by decide +kernel
  refine ⟨ho, hpend, ?_⟩
  rw [(account_sums_of_run {} .blank Mbd.blank_initial rfl ops ho (by decide +kernel) 0 {0, 1} {0, 1} (by decide +kernel)
    (by decide +kernel)).2.2 hpend]
  decide +kernel

/-- A group's account doubles the sum; of two held jobs `numNonPrmptRsv` counts one. -/
theorem account_sums_groups_and_held :
    let grouped : Mbd := { Mbd.blank with users := fun u => if u = 0 then { ancestors := [1] } else {} }
    let s := run (step {}) [.newJob 1 false 0 1 0 { queue := 0 }] grouped
    let held := run (step {}) [.newJob 1 false 0 1 0 { queue := 0, hold := true },
      .newJob 1 false 1 2 0 { queue := 0, hold := true }, .allocHosts 0 1 [(0, 1)], .allocHosts 1 1 [(0, 1)],
      .reserveSlots 2 0, .reserveSlots 2 1] .blank
    ∑ u ∈ {0, 1}, acctCount ((s.queues 0).uAcct u) .numPEND ≠ (s.queues 0).count .numPEND ∧
      nonPrmptRsv ((held.queues 0).hAcct 0) = 1 ∧ acctCount ((held.queues 0).hAcct 0) .numRESERVE = 2 := by
  decide +kernel

end OpenLava

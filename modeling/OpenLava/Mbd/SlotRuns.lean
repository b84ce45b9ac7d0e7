import OpenLava.Mbd.SlotMoves
import Mathlib.Algebra.BigOperators.Group.Finset.Basic
import Mathlib.Algebra.Order.BigOperators.Group.Finset

/-!
# The slot counters over every run

`Bookable` collects the conditions under which each operation keeps the books.
-/

namespace OpenLava

open Ledger Mask Run

def Bookable (C : Config) (op : Op) (s : Mbd) : Prop :=
  match op with
  | .newJob _ _ j _ _ _ => j ∉ s.live
  | .newJobArray a _ _ _ elems =>
    a ∉ s.live ∧ (∀ e ∈ elems, e.1 ∉ s.live) ∧ (elems.map Prod.fst).Nodup ∧ elems ≠ []
  | .jStatusChange _ j newStatus eventTime => j ∈ s.live ∧ StatusOk C (eventTime = 0) (s.jobs j) newStatus
  | .allocHosts j _ execCandPtr =>
    j ∈ s.live ∧ (s.jobs j).Free ∧ ∀ cand ∈ execCandPtr, (s.hosts cand.1).remote = false
  | .deallocHosts j => j ∈ s.live ∧ (s.jobs j).Free
  | .reserveSlots _ j => j ∈ s.live ∧ ((s.jobs j).jStatus.reserve = true ∨ (s.jobs j).CanReserve)
  | .freeReserveSlots j => j ∈ s.live ∧ ((s.jobs j).jStatus.reserve = true → (s.jobs j).phase = some .pending)
  | .takeReserve j => j ∈ s.live ∧ (s.jobs j).CanReserve
  | .dropReserve j => j ∈ s.live
  | .switchAJob j qtp verdict => j ∈ s.live ∧ SwitchOk s j qtp verdict
  | .handleRequeueJob _ j => j ∈ s.live ∧ (s.jobs j).phase = some .finished
  | .arrayRequeue _ _ _ elems => ∀ j ∈ elems, j ∈ s.live
  | .removeJob j => (s.jobs j).phase = some .finished
  | .modify _ _ | .note _ _ | .moveAJob _ _ => True
  | .setUnkwn j _ | .postFinish j _ _ => j ∈ s.live
  -- the counters are not kept during a replay
  | .replayNewstat .. | .endReplay => False

instance (C : Config) : (op : Op) → (s : Mbd) → Decidable (Bookable C op s)
  | .newJob .. , s => inferInstanceAs (Decidable (_ ∉ s.live))
  | .newJobArray .. , _ | .jStatusChange .. , _ | .allocHosts .. , _ | .deallocHosts _, _ | .reserveSlots .. , _
  | .freeReserveSlots _, _ | .takeReserve _, _ | .switchAJob .. , _ | .handleRequeueJob .. , _ =>
    inferInstanceAs (Decidable (_ ∧ _))
  | .dropReserve _, s => inferInstanceAs (Decidable (_ ∈ s.live))
  | .arrayRequeue _ _ _ elems, s => inferInstanceAs (Decidable (∀ j ∈ elems, j ∈ s.live))
  | .removeJob _, _ => inferInstanceAs (Decidable (_ = _))
  | .modify .. , _ | .note .. , _ | .moveAJob .. , _ => inferInstanceAs (Decidable True)
  | .setUnkwn .. , s | .postFinish .. , s => inferInstanceAs (Decidable (_ ∈ s.live))
  | .replayNewstat .. , _ | .endReplay, _ => inferInstanceAs (Decidable False)

variable {C : Config} {s : Mbd}

theorem Kept.step (op : Op) (s : Mbd) (h : Kept s) (hop : Bookable C op s) : Kept (step C op s) := by
  cases op with
  | newJob now fromLog j jobId user bill => exact h.handleNewJob hop now fromLog jobId user bill
  | newJobArray a jobId user bill elems => exact h.handleNewJobArray hop.1 hop.2.1 hop.2.2.1 hop.2.2.2 jobId user bill
  | jStatusChange now j newStatus eventTime => exact h.jStatusChange hop.1 now newStatus eventTime hop.2
  | allocHosts j n cands => exact h.allocHosts hop.1 hop.2.1 n cands hop.2.2
  | deallocHosts j => exact h.deallocHosts hop.1 hop.2
  | reserveSlots now j => exact h.reserveSlots hop.1 now hop.2
  | freeReserveSlots j => exact h.freeReserveSlots hop.1 hop.2
  | takeReserve j => exact h.takeReserve hop.1 hop.2
  | dropReserve j => exact h.dropReserve hop
  | switchAJob j qtp verdict => exact h.switchAJob hop.1 hop.2
  | moveAJob j moveReq => exact h.relisted (moveAJob_relisted C j moveReq s)
  | handleRequeueJob requeueTime j => exact h.handleRequeueJob hop.1 hop.2 requeueTime
  | arrayRequeue now req node elems => exact h.arrayRequeue now req node elems hop
  | removeJob j => exact h.removeJob hop
  | modify j newSub => exact h.modJob (fun jp => { jp with newSub := some newSub }) ⟨rfl, rfl, rfl, fun _ => rfl, rfl, rfl⟩
  | note j n => exact h.modJob n.write ⟨rfl, rfl, rfl, fun _ => rfl, rfl, rfl⟩
  | setUnkwn j b => exact h.setUnkwn hop b
  | postFinish j pdone perr => exact h.postFinish hop pdone perr
  | replayNewstat env eventTime j newStat => exact hop.elim
  | endReplay => exact hop.elim

theorem Mbd.Initial.kept (h : s.Initial) (hr : s.replay = false) : Kept s where
  replay := hr
  fit := by simp [h.live]
  books :=
    { sound := by simp [h.live]
      placed := by simp [h.live]
      queue := fun a => by simp [h.live, h.queue_count]
      user := fun a => by simp [h.live, h.user_count]
      host := fun a => by simp [h.live, h.host_count]
      uAcct := fun a => by simp [h.live, h.queue_uAcct, acctCount]
      hAcct := fun a => by simp [h.live, h.queue_hAcct, acctCount]
      queue_clamped := h.queue_clamped
      user_clamped := h.user_clamped
      host_clamped := h.host_clamped }

theorem kept_run (h : s.Initial) (hr : s.replay = false) (ops : List Op)
    (ho : Meets (OpenLava.step C) (Bookable C) ops s) : Kept (run (OpenLava.step C) ops s) :=
  run_invariant Kept.step ops s (h.kept hr) ho

/-- The counters of a held slot; suspended with a reservation is reserving only. -/
def JData.heldIn (jp : JData) : Counter → Bool
  | .numRUN => jp.jStatus.mask.run
  | .numSSUSP => jp.jStatus.mask.ssusp && !jp.jStatus.reserve
  | .numUSUSP => jp.jStatus.mask.ususp && !jp.jStatus.reserve
  | .numRESERVE => jp.jStatus.reserve
  | .numJobs | .numPEND => false

def JData.reserved (jp : JData) : Int := if jp.jStatus.reserve then jp.numHostPtr else 0

variable {jp : JData}

theorem JData.Fit.amount_pend (h : jp.Fit) : (entryOf jp).amount .numPEND =
    if jp.jStatus.mask.isPend then jp.maxNumProcessors - jp.reserved else 0 := by
  obtain ⟨ph, hph⟩ := Option.isSome_iff_exists.mp h.phase
  have hr := phase_reads (m := jp.jStatus.mask) hph
  rw [entryOf_eq hph, hr.isPend]
  cases ph <;> cases hr : jp.jStatus.reserve <;>
    simp [Entry.amount, entryAt, pendBy, heldBy, hostTally, tally, JData.reserved, hr]

theorem JData.Fit.held (h : jp.Fit) (hc : c ≠ .numJobs) (hc' : c ≠ .numPEND) :
    (entryOf jp).held c = if jp.heldIn c then 1 else 0 := by
  obtain ⟨ph, hph⟩ := Option.isSome_iff_exists.mp h.phase
  have hr := phase_reads (m := jp.jStatus.mask) hph
  have hfit := h.reserve
  rw [hph] at hfit
  rw [entryOf_eq hph]
  cases ph <;> cases hres : jp.jStatus.reserve <;> simp [hres] at hfit
  all_goals
    cases c <;> simp [entryAt, heldBy, hostTally, tally, JData.heldIn, hres, hr.run, hr.ssusp, hr.ususp] at hc hc' ⊢

theorem JData.Fit.amount_held (h : jp.Fit) (hc : c ≠ .numJobs) (hc' : c ≠ .numPEND) :
    (entryOf jp).amount c = if jp.heldIn c then jp.numHostPtr else 0 := by
  rw [Entry.amount, h.held hc hc', if_neg (by simp [hc, hc']), zero_add, mul_ite, mul_one, mul_zero]
  rfl

theorem entryOf_held_jobs (jp : JData) : (entryOf jp).held .numJobs = (entryOf jp).held .numRUN +
    (entryOf jp).held .numSSUSP + (entryOf jp).held .numUSUSP + (entryOf jp).held .numRESERVE := by
  unfold entryOf
  cases jp.phase.getD .finished <;> cases jp.jStatus.reserve <;> rfl

theorem entryOf_amount_jobs (jp : JData) : (entryOf jp).amount .numJobs = (entryOf jp).amount .numPEND +
    (entryOf jp).amount .numRUN + (entryOf jp).amount .numSSUSP + (entryOf jp).amount .numUSUSP +
    (entryOf jp).amount .numRESERVE := by
  have hpend : (entryOf jp).held .numPEND = 0 := heldBy_pend _ _
  simp only [Entry.amount, entryOf_held_jobs, hpend, true_or, or_true, if_true, reduceCtorEq, or_self, if_false]
  ring

theorem Kept.queue_count (h : Kept s) (q : QRef) (c : Counter) :
    (s.queues q).count c = ∑ j ∈ s.live, if (s.jobs j).qPtr = q then (entryOf (s.jobs j)).amount c else 0 :=
  h.books.queue (q, c)

theorem Kept.queue_sum (h : Kept s) (q : QRef) (c : Counter) {counted : JData → Bool} {amount : JData → Int}
    (hc : ∀ jp : JData, jp.Fit → (entryOf jp).amount c = if counted jp then amount jp else 0) :
    (s.queues q).count c = ∑ j ∈ s.live with (s.jobs j).qPtr = q ∧ counted (s.jobs j), amount (s.jobs j) := by
  rw [h.queue_count, Finset.sum_filter]
  refine Finset.sum_congr rfl fun j hj => ?_
  rw [hc _ (h.fit j hj)]
  by_cases hq : (s.jobs j).qPtr = q <;> simp [hq]

theorem Kept.queue_numJobs (h : Kept s) (q : QRef) : (s.queues q).count .numJobs = (s.queues q).count .numPEND +
    (s.queues q).count .numRUN + (s.queues q).count .numSSUSP + (s.queues q).count .numUSUSP +
    (s.queues q).count .numRESERVE := by
  simp only [h.queue_count, ← Finset.sum_add_distrib]
  refine Finset.sum_congr rfl fun j _ => ?_
  rw [entryOf_amount_jobs]
  by_cases hq : (s.jobs j).qPtr = q <;> simp [hq]

/-- What the job counts for in any counter, at most. -/
def JData.slots (jp : JData) : Int := max jp.maxNumProcessors jp.numHostPtr

def Mbd.slots (s : Mbd) : Int := ∑ j ∈ s.live, (s.jobs j).slots

/-- The slots of all jobs before and after an operation fit an `int` together, so that `addValue` does not overflow. -/
def InInt (C : Config) (op : Op) (s : Mbd) : Prop := 2 * (step C op s).slots < 2 ^ 31

instance (C : Config) (op : Op) (s : Mbd) : Decidable (InInt C op s) := inferInstanceAs (Decidable (_ < _))

theorem JData.Fit.amount_le (h : jp.Fit) (c : Counter) : (entryOf jp).amount c ≤ jp.slots := by
  obtain ⟨ph, hph⟩ := Option.isSome_iff_exists.mp h.phase
  have hm : 0 ≤ jp.maxNumProcessors := by simp [JData.maxNumProcessors]
  have hn : (0 : Int) ≤ jp.hPtr.length := Int.natCast_nonneg _
  rw [entryOf_eq hph]
  cases ph <;> cases jp.jStatus.reserve <;> cases c <;>
    simp [Entry.amount, entryAt, pendBy, heldBy, hostTally, tally, JData.slots, JData.numHostPtr, hm, hn]

theorem Kept.queue_range (h : Kept s) (q : QRef) (c : Counter) :
    0 ≤ (s.queues q).count c ∧ (s.queues q).count c ≤ s.slots := by
  have hn : ∀ j ∈ s.live, 0 ≤ (entryOf (s.jobs j)).amount c := fun j hj => Entry.amount_nonneg (h.fit j hj).sound c
  rw [h.queue_count]
  refine ⟨Finset.sum_nonneg fun j hj => ?_, Finset.sum_le_sum fun j hj => ?_⟩
  · split_ifs
    · exact hn j hj
    · exact le_rfl
  · split_ifs
    · exact (h.fit j hj).amount_le c
    · exact (hn j hj).trans ((h.fit j hj).amount_le c)

theorem Kept.queue_inInt (h : Kept s) (hs : 2 * s.slots < 2 ^ 31) (q : QRef) (c : Counter) :
    0 ≤ (s.queues q).count c ∧ (s.queues q).count c < 2 ^ 31 := by
  have := h.queue_range q c
  omega

theorem slots_run (h : s.Initial) (ops : List Op) (hint : Meets (OpenLava.step C) (InInt C) ops s) :
    2 * (run (OpenLava.step C) ops s).slots < 2 ^ 31 :=
  run_invariant (I := fun s => 2 * s.slots < 2 ^ 31) (fun _ _ _ hop => hop) ops s (by simp [Mbd.slots, h.live]) hint

/-- Over every run of jobs whose slots an `int` can count, a queue's counters are the sums over its jobs, and none was ever
clamped. -/
theorem queue_counters_of_run (C : Config) (s₀ : Mbd) (h₀ : s₀.Initial) (hr : s₀.replay = false) (ops : List Op)
    (hops : Meets (step C) (Bookable C) ops s₀) (hint : Meets (step C) (InInt C) ops s₀) (q : QRef) :
    let s := run (step C) ops s₀
    let count := (s.queues q).count
    count .numPEND = ∑ j ∈ s.live with (s.jobs j).qPtr = q ∧ (s.jobs j).jStatus.mask.isPend,
        ((s.jobs j).maxNumProcessors - (s.jobs j).reserved) ∧
      (∀ c ∈ [Counter.numRUN, .numSSUSP, .numUSUSP, .numRESERVE],
        count c = ∑ j ∈ s.live with (s.jobs j).qPtr = q ∧ (s.jobs j).heldIn c, (s.jobs j).numHostPtr) ∧
      count .numJobs = count .numPEND + count .numRUN + count .numSSUSP + count .numUSUSP + count .numRESERVE ∧
      (∀ c, 0 ≤ count c ∧ count c < 2 ^ 31) ∧
      (s.queues q).clamped = false ∧ (∀ u, (s.users u).clamped = false) ∧ ∀ h, (s.hosts h).clamped = false := by
  intro s count
  have hk : Kept s := kept_run h₀ hr ops hops
  refine ⟨?_, fun c hc => ?_, hk.queue_numJobs q, fun c => ?_, hk.books.queue_clamped q, hk.books.user_clamped,
    hk.books.host_clamped⟩
  · exact hk.queue_sum q .numPEND fun jp hfit => hfit.amount_pend
  · refine hk.queue_sum q c fun jp hfit => hfit.amount_held ?_ ?_ <;> rintro rfl <;> simp at hc
  · exact hk.queue_inInt (slots_run h₀ ops hint) q c

theorem queue_counters_of_run_requeue :
    let ops : List Op := [.newJob 1 false 0 1 0 { queue := 0, maxNumProcessors := 2 }, .allocHosts 0 2 [(0, 1), (1, 1)],
      .reserveSlots 2 0, .freeReserveSlots 0, .allocHosts 0 2 [(0, 2)], .jStatusChange 3 0 .RUN 0,
      .jStatusChange 4 0 .USUSP 0, .takeReserve 0, .switchAJob 0 1 .accepted, .jStatusChange 5 0 .EXIT 0,
      .handleRequeueJob 6 0]
    Meets (step {}) (Bookable {}) ops .blank ∧ Meets (step {}) (InInt {}) ops .blank ∧
      ((run (step {}) ops .blank).queues 1).clamped = false := by
  intro ops
  have ho : Meets (step {}) (Bookable {}) ops .blank := by decide
  have hint : Meets (step {}) (InInt {}) ops .blank := by decide +kernel
  exact ⟨ho, hint, (queue_counters_of_run {} .blank Mbd.blank_initial rfl _ ho hint 1).2.2.2.2.1⟩

/-- Sent to PSUSP it stays in `numRUN`, and its exit is taken off `numPEND`. -/
theorem queue_counters_run_to_psusp :
    let start : List Op := [.newJob 1 false 0 1 0 { queue := 0 }, .allocHosts 0 1 [(0, 1)],
      .jStatusChange 2 0 .RUN 0, .jStatusChange 3 0 .PSUSP 0]
    let s := run (step {}) start .blank
    let s' := run (step {}) (start ++ [.jStatusChange 4 0 .EXIT 0]) .blank
    (s.queues 0).count .numRUN ≠
        ∑ j ∈ s.live with (s.jobs j).qPtr = 0 ∧ (s.jobs j).heldIn .numRUN, (s.jobs j).numHostPtr ∧
      (s'.queues 0).clamped = true := by
  decide

theorem Kept.localCount_eq (h : Kept s) (hj : j ∈ s.live) (x : HRef) :
    localCount (fun h => (s.hosts h).remote) (s.jobs j).hPtr x = (s.jobs j).hPtr.count x := by
  unfold localCount
  split_ifs with hr
  · have hn : x ∉ (s.jobs j).hPtr := fun hx => by simp [h.books.placed j hj x hx] at hr
    simp [List.count_eq_zero.mpr hn]
  · rfl

theorem Kept.host_count (h : Kept s) (x : HRef) (c : Counter) :
    (s.hosts x).count c = ∑ j ∈ s.live, ((s.jobs j).hPtr.count x : Int) * (entryOf (s.jobs j)).held c :=
  (h.books.host (x, c)).trans <| Finset.sum_congr rfl fun _ hj => congrArg (· * _) (h.localCount_eq hj x)

theorem Kept.host_sum (h : Kept s) (x : HRef) (hc : c ≠ .numJobs) (hc' : c ≠ .numPEND) :
    (s.hosts x).count c = ∑ j ∈ s.live with (s.jobs j).heldIn c, ((s.jobs j).hPtr.count x : Int) := by
  rw [h.host_count, Finset.sum_filter]
  refine Finset.sum_congr rfl fun j hj => ?_
  rw [(h.fit j hj).held hc hc', mul_ite, mul_one, mul_zero]

theorem Kept.host_numJobs (h : Kept s) (x : HRef) : (s.hosts x).count .numJobs = (s.hosts x).count .numRUN +
    (s.hosts x).count .numSSUSP + (s.hosts x).count .numUSUSP + (s.hosts x).count .numRESERVE := by
  simp only [h.host_count, ← Finset.sum_add_distrib]
  refine Finset.sum_congr rfl fun j _ => ?_
  rw [entryOf_held_jobs]
  ring

/-- Over every run a host's counters count its entries, and `HOST_STAT_FULL` compares `numJobs`. -/
theorem host_counters_of_run (C : Config) (s₀ : Mbd) (h₀ : s₀.Initial) (hr : s₀.replay = false) (ops : List Op)
    (hops : Meets (step C) (Bookable C) ops s₀) (x : HRef) : let s := run (step C) ops s₀
    let count := (s.hosts x).count
    count .numJobs = count .numRUN + count .numSSUSP + count .numUSUSP + count .numRESERVE ∧
      (∀ c ∈ [Counter.numRUN, .numSSUSP, .numUSUSP, .numRESERVE],
        count c = ∑ j ∈ s.live with (s.jobs j).heldIn c, ((s.jobs j).hPtr.count x : Int)) ∧
      ((s.hosts x).updated = true → ((s.hosts x).full = true ↔ (s.hosts x).maxJobs ≤ count .numJobs)) := by
  intro s count
  have hk : Kept s := kept_run h₀ hr ops hops
  refine ⟨hk.host_numJobs x, fun c hc => hk.host_sum x ?_ ?_, fun hu => ?_⟩
  · rintro rfl; simp at hc
  · rintro rfl; simp at hc
  · rw [(s.hosts x).full_eq hu, decide_eq_true_iff]

/-- Two jobs fill a host of four slots, and one of them finishes. -/
theorem host_counters_of_run_full :
    let ops : List Op := [.newJob 1 false 0 1 0 { queue := 0, maxNumProcessors := 3 }, .newJob 1 false 1 2 0 { queue := 0 },
      .allocHosts 0 3 [(0, 3)], .allocHosts 1 1 [(0, 1)], .jStatusChange 2 0 .RUN 0, .jStatusChange 2 1 .RUN 0]
    Meets (step {}) (Bookable {}) ops .blank ∧ ((run (step {}) ops .blank).hosts 0).full = true ∧
      Meets (step {}) (Bookable {}) (ops ++ [.jStatusChange 3 1 .DONE 0]) .blank ∧
      ¬ ((run (step {}) (ops ++ [.jStatusChange 3 1 .DONE 0]) .blank).hosts 0).full = true := by
  refine ⟨by decide, ?_, by decide, ?_⟩
  · rw [(host_counters_of_run {} .blank Mbd.blank_initial rfl _ (by decide) 0).2.2 (by decide)]
    decide
  · rw [(host_counters_of_run {} .blank Mbd.blank_initial rfl _ (by decide) 0).2.2 (by decide)]
    decide

/-- A job that is sent from RUN to PSUSP stays counted on its host. -/
theorem host_counters_run_to_psusp : let s := run (step {}) [.newJob 1 false 0 1 0 { queue := 0 }, .allocHosts 0 1 [(0, 1)],
      .jStatusChange 2 0 .RUN 0, .jStatusChange 3 0 .PSUSP 0] .blank
    (s.hosts 0).count .numRUN ≠ ∑ j ∈ s.live with (s.jobs j).heldIn .numRUN, ((s.jobs j).hPtr.count 0 : Int) := by
  decide

/-- Over the individual users, each job is on the books of exactly one user account. -/
theorem Kept.uAcct_sum (h : Kept s) (q : QRef) (hU : ∀ j ∈ s.live, (s.jobs j).uPtr ∈ U)
    (hG : ∀ j ∈ s.live, ∀ g ∈ (s.users (s.jobs j).uPtr).ancestors, g ∉ U) (hc : c ≠ .numJobs) :
    ∑ u ∈ U, acctCount ((s.queues q).uAcct u) c = (s.queues q).count c := by
  have ha : ∀ u, acctCount ((s.queues q).uAcct u) c = ∑ j ∈ s.live, owesUAcct s (entries s j) (q, u, c) :=
    fun u => h.books.uAcct (q, u, c)
  rw [h.queue_count, Finset.sum_congr rfl fun u _ => ha u, Finset.sum_comm]
  refine Finset.sum_congr rfl fun j hj => ?_
  have hone : ∑ u ∈ U, (((s.jobs j).uPtr :: (s.users (s.jobs j).uPtr).ancestors).count u : Int) = 1 := by
    rw [Finset.sum_eq_single (s.jobs j).uPtr]
    · have hn : (s.jobs j).uPtr ∉ (s.users (s.jobs j).uPtr).ancestors := fun hmem => hG j hj _ hmem (hU j hj)
      simp [List.count_eq_zero.mpr hn]
    · intro u hu hne
      have hn : u ∉ (s.users (s.jobs j).uPtr).ancestors := fun hmem => hG j hj u hmem hu
      simp [List.count_eq_zero.mpr hn, Ne.symm hne]
    · exact fun hn => absurd (hU j hj) hn
  by_cases hq : (s.jobs j).qPtr = q
  · have ho : ∀ u, owesUAcct s (entries s j) (q, u, c) =
        (((s.jobs j).uPtr :: (s.users (s.jobs j).uPtr).ancestors).count u : Int) * (entryOf (s.jobs j)).amount c :=
      fun u => if_pos ⟨hq, hc⟩
    rw [if_pos hq, Finset.sum_congr rfl fun u _ => ho u, ← Finset.sum_mul, hone, one_mul]
  · rw [if_neg hq]
    exact Finset.sum_eq_zero fun u _ => if_neg fun ha => hq ha.1

theorem sum_count_hPtr (hH : ∀ x ∈ jp.hPtr, x ∈ H) : ∑ x ∈ H, (jp.hPtr.count x : Int) = jp.numHostPtr := by
  have hc := Multiset.sum_count_eq_card (s := H) (m := (jp.hPtr : Multiset HRef)) (by simpa using hH)
  simp only [Multiset.coe_count, Multiset.coe_card] at hc
  rw [JData.numHostPtr]
  exact_mod_cast hc

/-- Over all hosts, each slot of a job is on the books of exactly one host account. -/
theorem Kept.hAcct_sum (h : Kept s) (q : QRef) (hH : ∀ j ∈ s.live, ∀ x ∈ (s.jobs j).hPtr, x ∈ H)
    (hc : c ≠ .numJobs) (hc' : c ≠ .numPEND) : ∑ x ∈ H, acctCount ((s.queues q).hAcct x) c = (s.queues q).count c := by
  have ha : ∀ x, acctCount ((s.queues q).hAcct x) c = ∑ j ∈ s.live, owesHAcct s (entries s j) (q, x, c) :=
    fun x => h.books.hAcct (q, x, c)
  rw [h.queue_count, Finset.sum_congr rfl fun x _ => ha x, Finset.sum_comm]
  refine Finset.sum_congr rfl fun j hj => ?_
  by_cases hq : (s.jobs j).qPtr = q
  · have ho : ∀ x, owesHAcct s (entries s j) (q, x, c) =
        ((s.jobs j).hPtr.count x : Int) * (entryOf (s.jobs j)).held c := fun x => by
      rw [owesHAcct, if_pos ⟨hq, hc⟩]
      exact congrArg (· * _) (h.localCount_eq hj x)
    rw [if_pos hq, Finset.sum_congr rfl fun x _ => ho x, ← Finset.sum_mul, sum_count_hPtr (hH j hj), Entry.amount,
      if_neg (by simp [hc, hc']), zero_add]
    rfl
  · rw [if_neg hq]
    exact Finset.sum_eq_zero fun u _ => if_neg fun ha => hq ha.1

theorem Kept.uAcct_nonneg (h : Kept s) (q : QRef) (u : URef) (c : Counter) : 0 ≤ acctCount ((s.queues q).uAcct u) c := by
  have ha : acctCount ((s.queues q).uAcct u) c = ∑ j ∈ s.live, owesUAcct s (entries s j) (q, u, c) := h.books.uAcct (q, u, c)
  rw [ha]
  refine Finset.sum_nonneg fun j hj => ?_
  unfold owesUAcct
  split_ifs
  · exact Int.mul_nonneg (Int.natCast_nonneg _) (Entry.amount_nonneg (h.fit j hj).sound c)
  · exact le_rfl

theorem Kept.hAcct_nonneg (h : Kept s) (q : QRef) (x : HRef) (c : Counter) : 0 ≤ acctCount ((s.queues q).hAcct x) c := by
  have ha : acctCount ((s.queues q).hAcct x) c = ∑ j ∈ s.live, owesHAcct s (entries s j) (q, x, c) := h.books.hAcct (q, x, c)
  rw [ha]
  refine Finset.sum_nonneg fun j hj => ?_
  unfold owesHAcct localCount
  split_ifs
  · simp
  · exact Int.mul_nonneg (Int.natCast_nonneg _) ((h.fit j hj).sound.held_nonneg c)
  · exact le_rfl

/-- An account whose like add up to a counter is no larger. -/
theorem inInt_of_sum {α : Type} {A : Finset α} {f : α → Int} {a : α} (hn : ∀ a, 0 ≤ f a) (hsum : ∑ a ∈ A, f a = n) (hlt : n < 2 ^ 31)
    (ha : a ∈ A) : 0 ≤ f a ∧ f a < 2 ^ 31 :=
  ⟨hn a, (Finset.single_le_sum (fun b _ => hn b) ha).trans_lt (hsum ▸ hlt)⟩

end OpenLava

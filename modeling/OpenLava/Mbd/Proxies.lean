import OpenLava.Mbd.Holdings

/-!
# The proxies of reserving jobs

A host has a list `pxyRsvJL` of proxies for the pending jobs that hold slots of it. A suspended job that reserves its
slots has none.
-/

namespace OpenLava

open List Ledger Mask Run

def pxyBook (s : Mbd) (a : JobRef × HRef) : Int := ((s.hosts a.2).pxyRsvJL.count a.1 : Int)

def pxyShare (j : JobRef) (jp : JData) (a : JobRef × HRef) : Int :=
  if a.1 = j ∧ jp.jStatus.reserve = true ∧ jp.jStatus.mask.isPend = true ∧ a.2 ∈ jp.hPtr then 1 else 0

variable {C : Config} {s : Mbd} {j : JobRef} {jp : JData} {ph : Phase}

theorem post_pxyRsvJL (p : Posting) (h : HRef) : ((post jp p s).hosts h).pxyRsvJL = (s.hosts h).pxyRsvJL :=
  post_hostField jp p s HData.pxyRsvJL (fun d hp => by by_cases hr : hp.remote <;> simp [HData.account, hr]) h

theorem pxyBook_post (p : Posting) : pxyBook (post jp p s) = pxyBook s := by
  funext a
  rw [pxyBook, pxyBook, post_pxyRsvJL]

theorem updResCountersRow_proxy (hph : jp.phase = some ph) (hr : Reservable ph) (b : Bool)
    (hb : jp.jStatus.reserve = !b) : ∃ p,
    updResCountersRow jp.numHostPtr jp.maxNumProcessors jp.jStatus { jp.jStatus with reserve := b } =
      some (p, if ph = .pending then if b then .add else .remove else .keep) := by
  have h := phase_reads (m := jp.jStatus.mask) hph
  cases b <;> rcases hr with rfl | rfl | rfl <;>
    simp [updResCountersRow, h.known_SSUSP, h.known_USUSP, h.known_pending, hb, h.isStart, h.isPend]

theorem pxyBook_add (hl : ∀ x ∈ jp.hPtr, (s.hosts x).remote = false) (hnew : ∀ x ∈ jp.hPtr, pxyBook s (j, x) = 0)
    (a : JobRef × HRef) : pxyBook (proxyHRsvJLAddEntry j jp s) a =
      pxyBook s a + if a.1 = j ∧ a.2 ∈ jp.hPtr then 1 else 0 := by
  set add : HData → HData := fun hp =>
    if hp.remote ∨ j ∈ hp.pxyRsvJL then hp else { hp with pxyRsvJL := hp.pxyRsvJL ++ [j] } with ha
  show ((updateEach (fun _ => add) jp.hPtr s.hosts a.2).pxyRsvJL.count a.1 : Int) = _
  by_cases hx : a.2 ∈ jp.hPtr
  · obtain ⟨n, hn⟩ : ∃ n, jp.hPtr.count a.2 = n + 1 := Nat.exists_eq_succ_of_ne_zero (count_pos_iff.mpr hx).ne'
    have hnot : j ∉ (s.hosts a.2).pxyRsvJL := count_eq_zero.mp (Int.natCast_eq_zero.mp (hnew a.2 hx))
    have hf : add (s.hosts a.2) = { s.hosts a.2 with pxyRsvJL := (s.hosts a.2).pxyRsvJL ++ [j] } :=
      if_neg (by simp [hl a.2 hx, hnot])
    -- the list has the proxy after the first turn
    have hfix : Function.IsFixedPt add (add (s.hosts a.2)) := if_pos (.inr (by rw [hf]; simp))
    rw [updateEach_apply, hn, Function.iterate_succ_apply, hfix.iterate n, hf, count_append, pxyBook]
    by_cases hj : a.1 = j
    · simp [hj, hx]
    · simp [hj, Ne.symm hj]
  · rw [updateEach_apply_of_notMem _ _ _ _ hx, if_neg fun h => hx h.2, add_zero]
    rfl

theorem pxyBook_remove (hloc : ∀ x ∈ jp.hPtr, (s.hosts x).remote = false) (ho : ∀ x ∈ jp.hPtr, pxyBook s (j, x) = 1)
    (a : JobRef × HRef) : pxyBook (proxyHRsvJLRemoveEntry j jp s) a =
      pxyBook s a - if a.1 = j ∧ a.2 ∈ jp.hPtr then 1 else 0 := by
  set remove : HData → HData := fun hp => if hp.remote then hp else { hp with pxyRsvJL := hp.pxyRsvJL.erase j } with hr
  show ((updateEach (fun _ => remove) jp.hPtr s.hosts a.2).pxyRsvJL.count a.1 : Int) = _
  by_cases hx : a.2 ∈ jp.hPtr
  · have he : ∀ (n : Nat) (hp : HData), hp.remote = false →
        (remove^[n] hp).pxyRsvJL.count a.1 = hp.pxyRsvJL.count a.1 - if a.1 = j then n else 0 := by
      intro n
      induction n with
      | zero => simp
      | succ n ih =>
        intro hp hl
        have hs : remove hp = { hp with pxyRsvJL := hp.pxyRsvJL.erase j } := if_neg (by simp [hl])
        rw [Function.iterate_succ_apply, hs, ih { hp with pxyRsvJL := hp.pxyRsvJL.erase j } hl]
        by_cases hj : a.1 = j
        · rw [if_pos hj, if_pos hj, hj, count_erase_self]
          omega
        · rw [if_neg hj, if_neg hj, count_erase_of_ne hj]
    have hpos : 0 < jp.hPtr.count a.2 := count_pos_iff.mpr hx
    have hc : (s.hosts a.2).pxyRsvJL.count j = 1 := by
      have := ho a.2 hx
      rw [pxyBook] at this
      exact_mod_cast this
    rw [updateEach_apply, he _ _ (hloc a.2 hx), pxyBook]
    by_cases hj : a.1 = j
    · rw [if_pos hj, if_pos ⟨hj, hx⟩, hj, hc]
      omega
    · rw [if_neg hj, if_neg fun h => hj h.1]
      simp
  · rw [updateEach_apply_of_notMem _ _ _ _ hx, if_neg fun h => hx h.2, sub_zero]
    rfl

theorem Kept.pxy_setReserve (h : Kept s) (hj : j ∈ s.live) (hph : (s.jobs j).phase = some ph) (b : Bool)
    (hres : Reservable ph) (hf : (s.jobs j).jStatus.reserve = !b)
    (hmine : ∀ a : JobRef × HRef, a.1 = j → pxyBook s a = pxyShare j (s.jobs j) a) (a : JobRef × HRef) :
    pxyBook (updResCounters j (s.jobs j) { (s.jobs j).jStatus with reserve := b } s) a -
      pxyShare j ((s.jobs j).withReserve b) a = pxyBook s a - pxyShare j (s.jobs j) a := by
  have hr := phase_reads (m := (s.jobs j).jStatus.mask) hph
  obtain ⟨p, hrow⟩ := updResCountersRow_proxy hph hres b hf
  have hi : ¬ (¬ (s.jobs j).jStatus.mask.isPend ∧ ¬ (s.jobs j).jStatus.mask.isStart) := by
    rcases hres with rfl | rfl | rfl <;> simp [hr.isPend, hr.isStart]
  have hl : ∀ x ∈ (s.jobs j).hPtr, ((post (s.jobs j) p s).hosts x).remote = false := fun x hx => by
    rw [post_remote]
    exact h.books.placed j hj x hx
  have ho : ∀ x ∈ (s.jobs j).hPtr, pxyBook (post (s.jobs j) p s) (j, x) = pxyShare j (s.jobs j) (j, x) :=
    fun x _ => by rw [pxyBook_post, hmine (j, x) rfl]
  unfold OpenLava.updResCounters
  rw [if_neg hi, hrow]
  by_cases hpend : ph = .pending
  · have hisPend : (s.jobs j).jStatus.mask.isPend = true := by rw [hr.isPend, hpend]; rfl
    rw [if_pos hpend]
    cases b with
    | true =>
      show pxyBook (proxyHRsvJLAddEntry j (s.jobs j) (post (s.jobs j) p s)) a - _ = _
      rw [pxyBook_add hl fun x hx => by rw [ho x hx]; simp [pxyShare, hf], pxyBook_post]
      simp [pxyShare, JData.withReserve, hf, hisPend]
    | false =>
      show pxyBook (proxyHRsvJLRemoveEntry j (s.jobs j) (post (s.jobs j) p s)) a - _ = _
      rw [pxyBook_remove hl fun x hx => by rw [ho x hx]; simp [pxyShare, hf, hisPend, hx], pxyBook_post]
      simp [pxyShare, JData.withReserve, hf, hisPend]
  · have hisPend : (s.jobs j).jStatus.mask.isPend = false := by simp [hr.isPend, hpend]
    rw [if_neg hpend]
    simp [pxyBook_post, pxyShare, JData.withReserve, hisPend]

def proxies : Holding (JobRef × HRef) where
  book := pxyBook
  share := pxyShare
  mine j a := a.1 = j
  strict := false
  book_congr _ hh := funext fun a => by rw [pxyBook, pxyBook, hh]
  book_post _ := pxyBook_post _
  share_unreserved _ _ hr := funext fun a => by simp [pxyShare, hr]
  share_idle _ _ hp _ := funext fun a => by simp [pxyShare, hp]
  share_same _ _ _ _ hh hr hp _ := funext fun a => by rw [pxyShare, pxyShare, hh, hr, hp]
  share_mine hmine hne := if_neg fun h => hne (h.1.symm.trans hmine)
  setReserve b h hj hph hres hflip _ hmine := h.pxy_setReserve hj hph b hres hflip hmine

theorem Mbd.Initial.proxies (h : s.Initial) (hpxy : ∀ x, (s.hosts x).pxyRsvJL = []) : Holds OpenLava.proxies s where
  balanced a := by simp [h.live, OpenLava.proxies, pxyBook, hpxy]
  unheld := by simp [h.live]

/-- Over every run a host has one proxy for each pending job that reserves a slot of it. -/
theorem reserve_proxies_of_run (C : Config) (s₀ : Mbd) (h₀ : s₀.Initial) (hr : s₀.replay = false)
    (hpxy : ∀ x, (s₀.hosts x).pxyRsvJL = []) (ops : List Op) (hops : Meets (step C) (Bookable C) ops s₀) (x : HRef)
    (j : JobRef) : let s := run (step C) ops s₀
    (s.hosts x).pxyRsvJL.count j =
      if j ∈ s.live ∧ (s.jobs j).jStatus.reserve = true ∧ (s.jobs j).jStatus.mask.isPend = true ∧ x ∈ (s.jobs j).hPtr
      then 1 else 0 := by
  intro s
  have hb : Meets (step C) (fun op s => Bookable C op s ∧ (proxies.strict = true → PendReserved op s)) ops s₀ :=
    hops.imp ops s₀ fun op s h => ⟨h, fun hst => absurd hst (by decide)⟩
  have hh : Holds proxies s :=
    (run_invariant Holds.step ops s₀ ⟨h₀.kept hr, h₀.proxies hpxy⟩ hb).2
  have hb : ((s.hosts x).pxyRsvJL.count j : Int) = ∑ i ∈ s.live, pxyShare i (s.jobs i) (j, x) := hh.balanced (j, x)
  have ho : ∀ i, i ≠ j → pxyShare i (s.jobs i) (j, x) = 0 := fun i hij => if_neg fun h => hij h.1.symm
  by_cases hl : j ∈ s.live
  · rw [Finset.sum_eq_single_of_mem j hl fun i _ hij => ho i hij, pxyShare] at hb
    simp only [hl, true_and] at hb ⊢
    split_ifs at hb ⊢ <;> omega
  · rw [Finset.sum_eq_zero fun i hi => ho i fun hij => hl (hij ▸ hi)] at hb
    rw [if_neg fun h => hl h.1]
    omega

/-- Two jobs reserve slots of host 1, one of them twice; one proxy is left. -/
theorem reserve_proxies_of_run_free : let ops : List Op := [.newJob 1 false 0 1 0 { queue := 0, maxNumProcessors := 2 },
      .newJob 1 false 1 2 0 { queue := 0 }, .allocHosts 0 2 [(1, 2)], .reserveSlots 2 0, .allocHosts 1 1 [(1, 1)],
      .reserveSlots 3 1, .freeReserveSlots 1]
    let s := run (step {}) ops .blank
    Meets (step {}) (Bookable {}) ops .blank ∧ (s.hosts 1).pxyRsvJL.count 0 = 1 ∧ (s.hosts 1).pxyRsvJL = [0] := by
  intro ops s
  have ho : Meets (step {}) (Bookable {}) ops .blank := by decide +kernel
  have hc := reserve_proxies_of_run {} .blank Mbd.blank_initial rfl (fun _ => rfl) ops ho 1 0
  exact ⟨ho, hc.trans (by decide +kernel), by decide +kernel⟩

/-- A suspended job that reserves its slots has no proxy. -/
theorem reserve_proxies_suspended :
    let s := run (step {}) [.newJob 1 false 0 1 0 { queue := 0 }, .allocHosts 0 1 [(1, 1)], .jStatusChange 2 0 .RUN 0,
      .jStatusChange 3 0 .SSUSP 0, .takeReserve 0] .blank
    (s.jobs 0).jStatus.reserve = true ∧ (s.jobs 0).hPtr = [1] ∧ (s.hosts 1).pxyRsvJL = [] := by
  decide +kernel

end OpenLava
